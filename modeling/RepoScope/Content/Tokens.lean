import RepoScope.Text.Utf8

/-!
# Token counts

The number of tokens of a text under an encoding, by the tokenizer of that encoding if there is one, and else
by an estimate.
-/

namespace RepoScope.Content

/-- The tokenizers that could be loaded, each by how many tokens it makes of a text. -/
structure Tokenizers where
  cl100k? : Option (List Char → Nat) := none
  o200k? : Option (List Char → Nat) := none

/-- The tokenizer of an encoding. -/
def Tokenizers.find? (tokenizers : Tokenizers) (encoding : String) : Option (List Char → Nat) :=
  if encoding = "cl100k_base" then tokenizers.cl100k?
  else if encoding = "o200k_base" then tokenizers.o200k?
  else none

/-- The encoding that is used unless another is named. -/
def defaultEncoding : String := "cl100k_base"

/-- An estimate of the number of tokens: one for every four bytes. -/
def estimateTokens (text : List Char) : Nat :=
  ((Text.encode text).length + 3) / 4

/-- The number of tokens of a text, estimated where there is no tokenizer. -/
def Tokenizers.count (tokenizers : Tokenizers) (encoding : String) (text : List Char) : Nat :=
  match tokenizers.find? encoding with
  | some count => count text
  | none => estimateTokens text

end RepoScope.Content
