import RepoScope.Proofs.Glob

/-!
# What the denylist denies

The globs of the denylist are words with a star at one end, at both or at none (`Secret.globs_perm`). Such a glob
matches a name if the word stands in it where the stars leave room, upper and lower case of the ASCII letters being the
same (`Glob.Frame.isMatch_tokens_iff`). The search for the word goes through all ends of the name, so a start of it that
comes again and again hides no later occurrence, and a wildcard that stands in the name is a character like all others.

* **`Secret.isSensitive_meaning`**: a path is a secret if and only if one of its components has, in lower case, one of
  the shapes that the words stand for. Neither the case of its letters nor the components around it matter.
-/

namespace RepoScope

namespace Text

/-- A text in lower case as far as it is ASCII. -/
def lowerAscii (cs : List Char) : List Char := cs.map Char.toLower

/-- Only letters change in lower case, and into letters. -/
theorem toLower_eq_iff {c d : Char} (hd : d.isAlpha = false) : c.toLower = d ↔ c = d := by
  delta Char.toLower
  delta Char.isAlpha Char.isUpper Char.isLower at hd
  split
  · next hc =>
    have hA : 'A'.val.toNat = 65 := rfl
    have hZ : 'Z'.val.toNat = 90 := rfl
    have ha : 'a'.val.toNat = 97 := rfl
    have hz : 'z'.val.toNat = 122 := rfl
    simp only [Bool.or_eq_false_iff, Bool.and_eq_false_iff, decide_eq_false_iff_not, ge_iff_le,
      UInt32.le_iff_toNat_le, Char.ext_iff, ← UInt32.toNat_inj, UInt32.toNat_add, UInt32.toNat_sub] at hc hd ⊢
    omega
  · exact Iff.rfl

/-- A text can be cut at a character that is no letter before or after it is put in lower case. -/
theorem pieces_lowerAscii {sep : Char} (hsep : sep.isAlpha = false) (cs : List Char) :
    pieces sep (lowerAscii cs) = (pieces sep cs).map lowerAscii := by
  induction cs with
  | nil => rfl
  | cons c cs ih =>
    have hc : (c.toLower == sep) = (c == sep) := by
      rw [Bool.eq_iff_iff, beq_iff_eq, beq_iff_eq, toLower_eq_iff hsep]
    obtain ⟨first, rest, hcs⟩ := List.exists_cons_of_ne_nil (piecesBy_ne_nil (· == sep) cs)
    rw [← pieces] at hcs
    rw [hcs, List.map_cons] at ih
    cases h : c == sep with
    | true =>
      have hcut : pieces sep (c :: cs) = [] :: pieces sep cs := piecesBy_cons_sep _ _ _ h
      have hlower : pieces sep (lowerAscii (c :: cs)) = [] :: pieces sep (lowerAscii cs) :=
        piecesBy_cons_sep _ _ _ (hc.trans h)
      rw [hlower, ih, hcut, hcs]
      rfl
    | false =>
      have hgoOn : pieces sep (c :: cs) = (c :: first) :: rest := piecesBy_cons_other _ _ _ _ _ h hcs
      have hlower : pieces sep (lowerAscii (c :: cs)) = (c.toLower :: lowerAscii first) :: rest.map lowerAscii :=
        piecesBy_cons_other _ _ _ _ _ (hc.trans h) ih
      rw [hlower, hgoOn]
      rfl

end Text

namespace Glob

open Text

/-! ## Words in globs

Words are matched character by character, and a star in a name leaves each of its ends to what follows: this is a
search that tries all places in turn and cannot miss one.
-/

/-- A word in a glob matches itself, whatever the case of its letters. -/
theorem isMatch_word_append_iff {word : List Char} {tokens : List Token} {cs : List Char} :
    isMatch .asciiInsensitive (word.map .char ++ tokens) cs = true ↔
      ∃ front rest, cs = front ++ rest ∧ lowerAscii front = lowerAscii word ∧
        isMatch .asciiInsensitive tokens rest = true := by
  induction word generalizing cs with
  | nil =>
    constructor
    · exact fun h => ⟨[], cs, rfl, rfl, h⟩
    · rintro ⟨front, rest, rfl, hfront, h⟩
      obtain rfl : front = [] := List.map_eq_nil_iff.mp hfront
      exact h
  | cons d word ih =>
    rw [List.map_cons, List.cons_append, isMatch_cons_iff]
    constructor
    · rintro ⟨rest, hrest, hmatch⟩
      -- The first character of the word takes one that is the same in lower case, and the rest goes on behind
      -- it.
      obtain ⟨front, behind, rfl, hfront, hbehind⟩ := ih.mp hmatch
      cases cs with
      | nil => simp [Token.remainders] at hrest
      | cons c cs =>
        obtain ⟨hc, rfl⟩ : c.toLower = d.toLower ∧ front ++ behind = cs := by
          simpa [Token.remainders, Token.accepts, CaseRule.same] using hrest
        exact ⟨c :: front, behind, rfl, congrArg₂ List.cons hc hfront, hbehind⟩
    · rintro ⟨front, behind, rfl, hfront, hbehind⟩
      cases front with
      | nil => cases hfront
      | cons c front =>
        obtain ⟨hc, hfront⟩ := List.cons.inj hfront
        refine ⟨front ++ behind, ?_, ih.mpr ⟨front, behind, rfl, hfront, hbehind⟩⟩
        simp [Token.remainders, Token.accepts, CaseRule.same, hc]

/-- In a name, a star leaves every end to the tokens behind it. -/
theorem isMatch_anyRun_cons_iff {rule : CaseRule} {tokens : List Token} {cs : List Char} (hslash : '/' ∉ cs) :
    isMatch rule (.anyRun :: tokens) cs = true ↔
      ∃ front rest, cs = front ++ rest ∧ isMatch rule tokens rest = true := by
  rw [isMatch_cons_iff]
  constructor
  · rintro ⟨rest, hrest, hmatch⟩
    obtain ⟨front, -, rfl⟩ := mem_runRemainders_iff.mp hrest
    exact ⟨front, rest, rfl, hmatch⟩
  · rintro ⟨front, rest, rfl, hmatch⟩
    have hfront : '/' ∉ front := fun h => hslash (List.mem_append_left _ h)
    exact ⟨rest, mem_runRemainders_iff.mpr ⟨front, hfront, rfl⟩, hmatch⟩

/-! ## Words between stars

A glob of the denylist is reduced to its word and two marks that say where it has stars. It is read as the tokens
of this form because no character of the word has a meaning of its own in globs, which is decided on the list.
-/

/-- A word that may have a star before it and behind it. -/
structure Frame where
  starBefore : Bool
  word : String
  starBehind : Bool

namespace Frame

/-- The word between its stars, as a glob. -/
def glob (f : Frame) : String :=
  (if f.starBefore then "*" else "") ++ f.word ++ if f.starBehind then "*" else ""

/-- The word between its stars, as tokens. -/
def tokens (f : Frame) : List Token :=
  (if f.starBefore then [.anyRun] else []) ++ (f.word.toList.map .char ++ if f.starBehind then [.anyRun] else [])

/-- Whether the word stands in a text with nothing around it but what the stars leave room for. -/
def Fits (f : Frame) (text : List Char) : Prop :=
  ∃ before behind, text = before ++ f.word.toList ++ behind ∧
    (f.starBefore = false → before = []) ∧ (f.starBehind = false → behind = [])

/-- Whether the word is one in lower case, and no character of it has a meaning of its own in globs. -/
def IsPlain (f : Frame) : Prop :=
  f.word ≠ "" ∧ lowerAscii f.word.toList = f.word.toList ∧
    ∀ c ∈ f.word.toList, c ≠ '?' ∧ c ≠ '*' ∧ c ≠ '['

instance (f : Frame) : Decidable f.IsPlain :=
  -- The characters of the word are looked at, not all characters there are.
  letI : Decidable (∀ c ∈ f.word.toList, c ≠ '?' ∧ c ≠ '*' ∧ c ≠ '[') := List.decidableBAll _ _
  inferInstanceAs (Decidable (_ ∧ _ ∧ _))

end Frame

/-- Characters without a meaning of their own are read one by one, and what follows them is read for itself. -/
theorem parseFrom?_word_append {word : List Char} (hword : ∀ c ∈ word, c ≠ '?' ∧ c ≠ '*' ∧ c ≠ '[')
    (before : Option Char) (rest : List Char) :
    ∃ last, parseFrom? before (word ++ rest) = (parseFrom? last rest).map (word.map .char ++ ·) := by
  induction word generalizing before with
  | nil => exact ⟨before, by simp⟩
  | cons c word ih =>
    obtain ⟨⟨hmark, hstar, hbracket⟩, hword⟩ := List.forall_mem_cons.mp hword
    obtain ⟨last, hlast⟩ := ih hword (some c)
    refine ⟨last, ?_⟩
    rw [List.cons_append, parseFrom?, hlast, Option.map_map]
    · rfl
    · exact hmark
    · exact fun _ heq => absurd heq hstar
    · exact hstar
    · exact hbracket

namespace Frame

/-- Such a glob is read as its word between its stars. -/
theorem parse?_glob {f : Frame} (hf : f.IsPlain) : parse? f.glob.toList = some f.tokens := by
  obtain ⟨hne, -, hword⟩ := hf
  have hstar : "*".toList = ['*'] := rfl
  -- The word, with or without a star behind it, read behind anything.
  have hbehind : ∀ before, parseFrom? before (f.word.toList ++ if f.starBehind then ['*'] else [])
      = some (f.word.toList.map .char ++ if f.starBehind then [.anyRun] else []) := by
    intro before
    obtain ⟨last, hlast⟩ := parseFrom?_word_append hword before (if f.starBehind then ['*'] else [])
    rw [hlast]
    cases f.starBehind <;> simp [parseFrom?]
  have htext : f.glob.toList = (if f.starBefore then ['*'] else []) ++
      (f.word.toList ++ if f.starBehind then ['*'] else []) := by
    rw [glob, String.toList_append, String.toList_append, List.append_assoc]
    cases f.starBefore <;> cases f.starBehind <;> rfl
  rw [parse?, htext, tokens]
  cases f.starBefore with
  | false => exact hbehind none
  | true =>
    -- The character behind the star is none, so the two do not make a pair of stars.
    obtain ⟨c, word, hcs⟩ := List.exists_cons_of_ne_nil (mt String.toList_eq_nil_iff.mp hne)
    have hc : c ≠ '*' := (hword c (hcs ▸ List.mem_cons_self)).2.1
    have hread := hbehind (some '*')
    rw [hcs, List.cons_append] at hread ⊢
    rw [if_pos rfl, if_pos rfl, List.singleton_append, List.singleton_append, parseFrom?, hread]
    · rfl
    · exact fun _ heq => absurd (List.cons.inj heq).1 hc

/-- In a name, the word may stand where its stars leave room, whatever the case of its letters. -/
theorem isMatch_tokens_iff {f : Frame} (hf : f.IsPlain) {name : List Char} (hslash : '/' ∉ name) :
    isMatch .asciiInsensitive f.tokens name = true ↔ f.Fits (lowerAscii name) := by
  have hlower := hf.2.1
  -- The word at the start of an end of the name, and what is behind it.
  have hbehind : ∀ rest, '/' ∉ rest →
      (isMatch .asciiInsensitive (f.word.toList.map .char ++ if f.starBehind then [.anyRun] else []) rest = true ↔
        ∃ behind, lowerAscii rest = f.word.toList ++ behind ∧ (f.starBehind = false → behind = [])) := by
    intro rest hrest
    rw [isMatch_word_append_iff, hlower]
    constructor
    · rintro ⟨front, behind, rfl, hfront, hmatch⟩
      refine ⟨lowerAscii behind, by rw [lowerAscii, List.map_append, ← lowerAscii, hfront]; rfl, fun hstar => ?_⟩
      rw [hstar] at hmatch
      obtain rfl : behind = [] := by simpa using hmatch
      rfl
    · rintro ⟨behind, heq, hstar⟩
      obtain ⟨front, back, rfl, hfront, hback⟩ := List.map_eq_append_iff.mp heq
      refine ⟨front, back, rfl, hfront, ?_⟩
      cases hcase : f.starBehind with
      | false =>
        obtain rfl : back = [] := List.map_eq_nil_iff.mp (hback.trans (hstar hcase))
        rfl
      | true =>
        rw [if_pos rfl, isMatch_anyRun_cons_iff fun h => hrest (List.mem_append_right _ h)]
        exact ⟨back, [], by simp, by simp⟩
  unfold tokens Fits
  cases f.starBefore with
  | false =>
    rw [if_neg Bool.false_ne_true, List.nil_append, hbehind name hslash]
    constructor
    · rintro ⟨behind, heq, hstar⟩
      exact ⟨[], behind, heq, fun _ => rfl, hstar⟩
    · rintro ⟨before, behind, heq, hbefore, hstar⟩
      obtain rfl := hbefore rfl
      exact ⟨behind, heq, hstar⟩
  | true =>
    rw [if_pos rfl, List.singleton_append, isMatch_anyRun_cons_iff hslash]
    constructor
    · rintro ⟨front, rest, rfl, hmatch⟩
      obtain ⟨behind, heq, hstar⟩ := (hbehind rest fun h => hslash (List.mem_append_right _ h)).mp hmatch
      refine ⟨lowerAscii front, behind, ?_, by simp, hstar⟩
      rw [lowerAscii, List.map_append, ← lowerAscii, ← lowerAscii, heq, List.append_assoc]
    · rintro ⟨before, behind, heq, -, hstar⟩
      rw [List.append_assoc] at heq
      obtain ⟨front, rest, rfl, -, hrest⟩ := List.map_eq_append_iff.mp heq
      exact ⟨front, rest, rfl,
        (hbehind rest fun h => hslash (List.mem_append_right _ h)).mpr ⟨behind, hrest, hstar⟩⟩

end Frame

end Glob

namespace Secret

open Text Glob

/-! ## The denylist

The globs are sorted by their stars into the four lists of shapes. That these are all globs of the denylist, and no
others, is a permutation of two closed lists.
-/

/-- Names that are secrets as they are. -/
def wholeNames : List String := [".env", ".netrc", ".pgpass", ".htpasswd"]

/-- Starts of names of secrets. -/
def nameStarts : List String := [".env."]

/-- Ends of names of secrets. -/
def nameEnds : List String :=
  [".env", ".pem", ".key", ".crt", ".cer", ".cert", ".p12", ".pfx", ".jks", ".keystore", ".kdbx"]

/-- What names of secrets have in them. -/
def nameParts : List String :=
  ["id_rsa", "id_dsa", "id_ecdsa", "id_ed25519", "secret", "password", "credential"]

/-- Whether a name in lower case has one of the shapes of names of secrets. -/
def HasShape (name : List Char) : Prop :=
  (∃ word ∈ wholeNames, name = word.toList) ∨
  (∃ word ∈ nameStarts, word.toList <+: name) ∨
  (∃ word ∈ nameEnds, word.toList <:+ name) ∨
  ∃ word ∈ nameParts, word.toList <:+: name

/-- The words of the denylist with their stars. -/
def frames : List Frame :=
  wholeNames.map (⟨false, ·, false⟩) ++ nameStarts.map (⟨false, ·, true⟩) ++
    nameEnds.map (⟨true, ·, false⟩) ++ nameParts.map (⟨true, ·, true⟩)

/-- The shapes are those of the globs of the denylist. -/
theorem globs_perm : globs.Perm (frames.map Frame.glob) := by
  decide +kernel

theorem isPlain_of_mem_frames : ∀ f ∈ frames, f.IsPlain := by
  decide +kernel

/-- A name has one of the shapes if one of the words stands in it where its stars leave room. -/
theorem hasShape_iff {name : List Char} : HasShape name ↔ ∃ f ∈ frames, f.Fits name := by
  have hwhole : ∀ word : String, Frame.Fits ⟨false, word, false⟩ name ↔ name = word.toList := by
    intro word
    simp [Frame.Fits]
  have hstart : ∀ word : String, Frame.Fits ⟨false, word, true⟩ name ↔ word.toList <+: name := by
    intro word
    simp [Frame.Fits, List.IsPrefix, eq_comm]
  have hend : ∀ word : String, Frame.Fits ⟨true, word, false⟩ name ↔ word.toList <:+ name := by
    intro word
    simp [Frame.Fits, List.IsSuffix, eq_comm]
  have hpart : ∀ word : String, Frame.Fits ⟨true, word, true⟩ name ↔ word.toList <:+: name := by
    intro word
    simp [Frame.Fits, List.IsInfix, eq_comm]
  simp only [HasShape, frames, List.mem_append, List.mem_map, or_and_right, exists_or, exists_exists_and_eq_and,
    hwhole, hstart, hend, hpart, or_assoc]

/-- A name is that of a secret if a glob of the denylist matches it. -/
theorem isSensitiveName_iff_exists {name : String} :
    isSensitiveName name = true ↔ ∃ glob ∈ globs, ∃ tokens, parse? glob.toList = some tokens ∧
      isMatch .asciiInsensitive tokens name.toList = true := by
  rw [isSensitiveName, List.any_eq_true, tokenLists]
  constructor
  · rintro ⟨tokens, htokens, hmatch⟩
    obtain ⟨glob, hglob, hparse⟩ := List.mem_filterMap.mp htokens
    exact ⟨glob, hglob, tokens, hparse, hmatch⟩
  · rintro ⟨glob, hglob, tokens, hparse, hmatch⟩
    exact ⟨tokens, List.mem_filterMap.mpr ⟨glob, hglob, hparse⟩, hmatch⟩

/-- A name is that of a secret if it has one of the shapes, whatever the case of its letters. -/
theorem isSensitiveName_iff {name : String} (hslash : '/' ∉ name.toList) :
    isSensitiveName name = true ↔ HasShape (lowerAscii name.toList) := by
  rw [isSensitiveName_iff_exists, hasShape_iff]
  constructor
  · rintro ⟨glob, hglob, tokens, hparse, hmatch⟩
    obtain ⟨f, hf, rfl⟩ := List.mem_map.mp (globs_perm.mem_iff.mp hglob)
    have hplain := isPlain_of_mem_frames f hf
    rw [Frame.parse?_glob hplain, Option.some.injEq] at hparse
    subst hparse
    exact ⟨f, hf, (Frame.isMatch_tokens_iff hplain hslash).mp hmatch⟩
  · rintro ⟨f, hf, hfits⟩
    have hplain := isPlain_of_mem_frames f hf
    exact ⟨f.glob, globs_perm.mem_iff.mpr (List.mem_map_of_mem hf), f.tokens, Frame.parse?_glob hplain,
      (Frame.isMatch_tokens_iff hplain hslash).mpr hfits⟩

/-! ## Paths

A path is tested component by component, so a component decides alone, and what stands around it can only add
reasons.
-/

theorem isSensitive_iff_exists {path : String} :
    isSensitive path = true ↔ ∃ component ∈ Path.pieces path, component ≠ "" ∧ component ≠ "." ∧
      isSensitiveName component = true := by
  simp [isSensitive, Path.names, Path.naming, and_assoc]

/-- A path is a secret if one of its components in lower case has one of the shapes. -/
theorem isSensitive_iff {path : String} :
    isSensitive path = true ↔ ∃ component ∈ Path.pieces path, component ≠ "" ∧ component ≠ "." ∧
      HasShape (lowerAscii component.toList) := by
  rw [isSensitive_iff_exists]
  refine exists_congr fun component => and_congr_right fun hmem => ?_
  rw [isSensitiveName_iff (Path.slash_notMem_of_mem_pieces hmem)]

/-- The components can be looked at after the whole path has been put in lower case. -/
theorem isSensitive_iff_lowerAscii {path : String} :
    isSensitive path = true ↔ ∃ component ∈ pieces '/' (lowerAscii path.toList), component ≠ [] ∧
      component ≠ ['.'] ∧ HasShape component := by
  have hempty : ∀ cs : List Char, String.ofList cs = "" ↔ lowerAscii cs = [] := by
    simp [lowerAscii, String.ext_iff]
  have hdot : ∀ cs : List Char, String.ofList cs = "." ↔ lowerAscii cs = ['.'] := by
    intro cs
    simp [lowerAscii, String.ext_iff, List.map_eq_singleton_iff, toLower_eq_iff, show ".".toList = ['.'] from rfl]
  rw [isSensitive_iff, pieces_lowerAscii (by decide), Path.pieces]
  simp only [List.mem_map, exists_exists_and_eq_and, String.toList_ofList, ne_eq, hempty, hdot]

/-- Below a slash, a path is a secret if it is one on either side. -/
theorem isSensitive_append (above below : String) :
    isSensitive (above ++ "/" ++ below) = (isSensitive above || isSensitive below) := by
  rw [isSensitive, Path.names, Path.pieces_append, Path.naming, List.filter_append, List.any_append]
  rfl

/-- A component on its own is a secret if its name is that of one. -/
theorem isSensitive_component {component : String} (hslash : '/' ∉ component.toList) (hne : component ≠ "")
    (hdot : component ≠ ".") : isSensitive component = isSensitiveName component := by
  have hpieces : Path.pieces component = [component] := by
    rw [Path.pieces, pieces_of_notMem hslash, List.map_singleton, String.ofList_toList]
  rw [Bool.eq_iff_iff, isSensitive_iff_exists, hpieces]
  simp [hne, hdot]

/--
A path is a secret if and only if one of its components, other than empty ones and dots, has in lower case one of the
shapes of names of secrets. The case of its letters makes no difference, a component on its own is judged like a name,
and of paths that are put together one secret is enough.
-/
theorem isSensitive_meaning (path : String) :
    (isSensitive path = true ↔ ∃ component ∈ Path.pieces path, component ≠ "" ∧ component ≠ "." ∧
      HasShape (lowerAscii component.toList)) ∧
    (∀ other : String, lowerAscii other.toList = lowerAscii path.toList → isSensitive other = isSensitive path) ∧
    (∀ above below, isSensitive path = true →
      isSensitive (above ++ "/" ++ path) = true ∧ isSensitive (path ++ "/" ++ below) = true) ∧
    ('/' ∉ path.toList → path ≠ "" → path ≠ "." → isSensitive path = isSensitiveName path) := by
  refine ⟨isSensitive_iff, fun other hcase => ?case, fun above below h => ?around, isSensitive_component⟩
  case case => rw [Bool.eq_iff_iff, isSensitive_iff_lowerAscii, isSensitive_iff_lowerAscii, hcase]
  case around =>
    rw [isSensitive_append, isSensitive_append, h]
    exact ⟨Bool.or_true _, Bool.true_or _⟩

/-- A fragment whose start comes twice, in a name with a star, below a directory and above another. -/
theorem isSensitive_meaning_sample :
    isSensitive "id_RID_RSA*" = true ∧ isSensitive "id_rid_rsa*" = true ∧
      isSensitive "home/id_rid_rsa*" = true ∧ isSensitive "id_rid_rsa*/a.ts" = true ∧
      isSensitiveName "id_rid_rsa*" = true := by
  have hcapitals : isSensitive "id_RID_RSA*" = true := by
    refine (isSensitive_meaning "id_RID_RSA*").1.mpr ⟨"id_RID_RSA*", by decide, by decide, by decide, ?_⟩
    exact .inr (.inr (.inr ⟨"id_rsa", by simp [nameParts], "id_r".toList, "*".toList, by decide⟩))
  obtain ⟨-, hcase, haround, hname⟩ := isSensitive_meaning "id_rid_rsa*"
  have hsmall := (hcase "id_RID_RSA*" (by decide)).symm.trans hcapitals
  obtain ⟨habove, -⟩ := haround "home" "" hsmall
  obtain ⟨-, hbelow⟩ := haround "" "a.ts" hsmall
  exact ⟨hcapitals, hsmall, habove, hbelow, (hname (by decide) (by decide) (by decide)).symm.trans hsmall⟩

end Secret

end RepoScope
