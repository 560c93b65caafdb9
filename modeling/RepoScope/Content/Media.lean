import RepoScope.Outline
import RepoScope.Text.Letter

/-!
# Likely binary files

Whether a file is worth opening as text, by its extension alone. The registry of media types gives a type for an
extension, or none; images, sounds and films are binary, and so are PDF and unspecified bytes, for which an
extension without a type is taken. Drawings in SVG are text, and so are source files whose extension means something
else in the registry.
-/

namespace RepoScope.Content

/-! ## Media types -/

/-- A media type, as `image/svg+xml`, by what stands before its slash and by what stands behind, up to a plus. -/
structure MediaType where
  kind : String
  subtype : String
  deriving DecidableEq

/-- The type of unspecified bytes. -/
def MediaType.bytes : MediaType := ⟨"application", "octet-stream"⟩

/-- Whether a file of this type is taken for binary. -/
def MediaType.isBinary (type : MediaType) : Bool :=
  if type.kind = "image" ∨ type.kind = "video" ∨ type.kind = "audio" then type.subtype ≠ "svg"
  else type.kind = "application" && (type.subtype = "octet-stream" || type.subtype = "pdf")

/-! ## A registry

Of the registry that `mime_guess` 2.0.5 comes with, no more is needed than whether the type of an extension is binary.
The table lists the extensions whose type is not; any other extension has a binary type there, or none.
-/

/-- The extensions that are registered for a type that is not binary. -/
def textExtensions : List String := [
  "123", "323", "3dml", "7z", "aab", "aam", "aas", "abw", "ac", "acc", "accda", "accdb", "accdc", "accde",
  "accdr", "accdt", "accdw", "accft", "ace", "acu", "acutc", "acx", "addin", "ade", "adobebridge", "adp",
  "aep", "afp", "ahead", "ai", "ait", "amc", "ami", "anx", "apk", "appcache", "application", "apr", "arc",
  "arj", "asa", "asax", "asc", "ascx", "ashx", "asm", "asmx", "aso", "aspx", "atc", "atom", "atomcat",
  "atomsvc", "atx", "aw", "axs", "azf", "azs", "azw", "bas", "bat", "bcpio", "bdf", "bdm", "bdoc", "bed",
  "bh2", "blb", "blorb", "bmi", "book", "box", "boz", "bz", "bz2", "c", "c11amc", "c4d", "c4f", "c4g",
  "c4p", "c4u", "calx", "cap", "car", "cat", "cb7", "cba", "cbr", "cbt", "cbz", "cc", "cco", "cct", "ccxml",
  "cd", "cdbcmsg", "cdf", "cdkey", "cdmia", "cdmic", "cdmid", "cdmio", "cdmiq", "cdx", "cdxml", "cdy",
  "cer", "cfg", "cfs", "chat", "chm", "chrt", "cif", "cil", "cla", "class", "clkk", "clkp", "clkt", "clkw",
  "clkx", "clp", "cmc", "cmd", "cmdf", "cml", "cmp", "cnf", "coffee", "com", "conf", "config", "contact",
  "coverage", "cpio", "cpp", "cpt", "crd", "crl", "crt", "crx", "cryptonote", "cs", "csdproj", "csh", "csl",
  "csml", "csp", "csproj", "css", "cst", "csv", "cu", "curl", "cww", "cxt", "cxx", "dae", "daf", "dart",
  "dataless", "datasource", "davmount", "dbk", "dbproj", "dcr", "dcurl", "dd2", "ddd", "def", "der", "dfac",
  "dgc", "dgml", "dic", "dir", "dis", "disco", "dll", "dlm", "dmp", "dna", "doc", "dot", "dp", "dpg", "dsc",
  "dssc", "dsw", "dtb", "dtd", "dtsconfig", "dvi", "dwf", "dwg", "dxf", "dxp", "dxr", "ear", "ecma", "edm",
  "edx", "efif", "ei6", "emf", "eml", "emma", "eot", "eps", "epub", "erf", "es", "es3", "esa", "esf", "et3",
  "etl", "etx", "eva", "evy", "exi", "ext", "ez", "ez2", "ez3", "f", "f77", "f90", "fcdt", "fcs", "fdf",
  "fe_launch", "feature", "fg5", "fgd", "fif", "fig", "filters", "flo", "flr", "flw", "flx", "fly", "fm",
  "fnc", "for", "frame", "fsc", "fsscript", "fsx", "ftc", "fxp", "fxpl", "fzs", "g2w", "g3w", "gac", "gam",
  "gbr", "gca", "gdl", "gdoc", "gemini", "generictest", "geo", "geojson", "gex", "ggb", "ggt", "ghf", "gim",
  "glb", "gltf", "gmi", "gml", "gmx", "gnumeric", "gph", "gpx", "gqf", "gqs", "gram", "gramps", "gre",
  "group", "grv", "grxml", "gsf", "gsheet", "gslides", "gtar", "gtm", "gtw", "gv", "gxf", "gxt", "gz", "h",
  "hal", "hbci", "hbs", "hdd", "hdf", "hdml", "hh", "hhc", "hjson", "hlp", "hpgl", "hpid", "hpp", "hps",
  "hqx", "hta", "htc", "htke", "htm", "html", "htt", "hvd", "hvp", "hvs", "hxa", "hxc", "hxe", "hxf", "hxk",
  "hxt", "hxv", "hxx", "i", "i2g", "icc", "ice", "icm", "ics", "idl", "ifb", "ifm", "iges", "igl", "igm",
  "igs", "igx", "iif", "iii", "imp", "ims", "in", "inc", "ini", "ink", "inkml", "inl", "ins", "install",
  "iota", "ipa", "ipfix", "ipg", "ipk", "ipproj", "ipsw", "iqy", "irm", "irp", "isp", "ite", "itlp", "itms",
  "itp", "itpc", "ivp", "ivu", "jad", "jade", "jam", "jar", "jardiff", "jck", "jcz", "jisp", "jlt", "jnlp",
  "joda", "js", "jsm", "json", "json5", "jsonld", "jsonml", "jsx", "jsxbin", "karbon", "kfo", "kia", "kml",
  "kmz", "kne", "knp", "kon", "kpr", "kpt", "kpxx", "ksp", "ktr", "ktz", "kwd", "kwt", "lasxml", "latex",
  "les", "less", "lha", "library-ms", "link66", "list", "list3820", "listafp", "lit", "litcoffee", "lnk",
  "loadtest", "log", "lostxml", "lrm", "lst", "ltf", "lua", "luac", "lwp", "m13", "m14", "m21", "ma",
  "mads", "mag", "mak", "maker", "man", "manifest", "map", "markdown", "master", "mathml", "mb", "mbk",
  "mbox", "mc1", "mcd", "mcurl", "md", "mda", "mdb", "mde", "me", "mesh", "meta4", "metalink", "mets",
  "mfm", "mfp", "mft", "mgp", "mgz", "mht", "mhtml", "mie", "mif", "mime", "mjs", "mk", "mkd", "mlp", "mmd",
  "mmf", "mml", "mno", "mny", "mobi", "mods", "mp21", "mp4s", "mpc", "mpd", "mpf", "mpkg", "mpm", "mpn",
  "mpp", "mpt", "mpy", "mqy", "mrc", "mrcx", "ms", "mscml", "mseed", "mseq", "msf", "msg", "msh", "msl",
  "msty", "mtx", "mus", "musicxml", "mvb", "mvc", "mwf", "mxf", "mxl", "mxml", "mxp", "mxs", "n-gage", "n3",
  "nb", "nbp", "nc", "ncx", "nfo", "ngdat", "nitf", "nlu", "nml", "nnd", "nns", "nnw", "nq", "nsf", "nt",
  "ntf", "nws", "nzb", "oa2", "oa3", "oas", "obd", "obj", "oda", "odb", "odc", "odf", "odg", "odh", "odi",
  "odl", "odm", "odp", "ods", "odt", "ogx", "omdoc", "one", "onea", "onepkg", "onetmp", "onetoc", "onetoc2",
  "opf", "opml", "oprc", "orderedtest", "org", "osdx", "osf", "otf", "oth", "ott", "ova", "ovf", "oxps",
  "oxt", "p", "p10", "p12", "p7b", "p7c", "p7m", "p7r", "p7s", "p8", "pac", "parquet", "pas", "paw", "pbd",
  "pcap", "pcast", "pcf", "pcl", "pclxl", "pcurl", "pdb", "pde", "pem", "pfa", "pfr", "pfx", "pgn", "pgp",
  "php", "pkgdef", "pkgundef", "pki", "pkipath", "pko", "pkpass", "pl", "plb", "plc", "plf", "pm", "pma",
  "pmc", "pml", "pmr", "pmw", "portpkg", "pot", "ppa", "ppd", "pps", "ppt", "pqa", "prc", "pre", "prf",
  "ps", "psb", "psc1", "psess", "psf", "pskcxml", "pst", "ptid", "pub", "pvb", "pwn", "pwz", "py", "qam",
  "qbo", "qfx", "qht", "qhtm", "qps", "qtl", "qwd", "qwt", "qxb", "qxl", "qxt", "raml", "rar", "rat", "rc",
  "rc2", "rcprofile", "rct", "rdf", "rdlc", "rdz", "reg", "rep", "res", "resx", "rgs", "rif", "ris", "rl",
  "rld", "rm", "rmp", "rms", "rmvb", "rnc", "rng", "roa", "roff", "rp9", "rpss", "rpst", "rq", "rqy", "rs",
  "rsd", "rss", "rtf", "rtx", "ruleset", "run", "s", "saf", "safariextz", "sass", "sbml", "sc", "scd",
  "scm", "scq", "scr", "scs", "scss", "sct", "scurl", "sda", "sdc", "sdd", "sdkd", "sdkm", "sdp", "sdw",
  "see", "seed", "sema", "semd", "semf", "ser", "setpay", "setreg", "settings", "sfd-hdstx", "sfs", "sfv",
  "sgimb", "sgl", "sgm", "sgml", "sh", "shar", "shex", "shf", "shtml", "sig", "silo", "sis", "sisx", "sit",
  "sitemap", "sitx", "skd", "skin", "skm", "skp", "skt", "slim", "slk", "slm", "sln", "slt", "slupkg-ms",
  "sm", "smf", "smil", "smzip", "snf", "snippet", "sol", "sor", "spc", "spf", "spl", "spot", "spp", "spq",
  "sql", "src", "srf", "srt", "sru", "srx", "ssdl", "sse", "ssf", "ssisdeploymentmanifest", "ssm", "ssml",
  "sst", "st", "stc", "std", "step", "stf", "sti", "stk", "stl", "stp", "str", "stw", "styl", "stylus",
  "sub", "sus", "susp", "sv4cpio", "sv4crc", "svc", "svd", "svg", "svgz", "swa", "swf", "swi", "sxc", "sxd",
  "sxg", "sxi", "sxm", "sxw", "t", "t3", "taglet", "tao", "tar", "tcap", "tcl", "teacher", "tei",
  "teicorpus", "testrunconfig", "testsettings", "tex", "texi", "texinfo", "text", "tfi", "tfm", "tgz",
  "thmx", "tk", "tlh", "tli", "tmo", "toml", "torrent", "tpl", "tpt", "tr", "tra", "trig", "trm", "trx",
  "tsd", "tsv", "ttc", "ttf", "ttl", "twd", "twds", "txd", "txf", "txt", "u8dsn", "u8hdr", "u8mdn", "u8msg",
  "udeb", "ufd", "ufdl", "uls", "ulx", "umj", "unityweb", "uoml", "uri", "uris", "urls", "user", "ustar",
  "utz", "uu", "uvd", "uvf", "uvt", "uvvd", "uvvf", "uvvt", "uvvx", "uvvz", "uvx", "uvz", "vb", "vbdproj",
  "vbox", "vbox-extpack", "vbproj", "vbs", "vcard", "vcd", "vcf", "vcg", "vcproj", "vcs", "vcx", "vcxproj",
  "vddproj", "vdi", "vdp", "vdproj", "vdx", "vhd", "vis", "vmdk", "vml", "vor", "vox", "vrml", "vscontent",
  "vsct", "vsd", "vsf", "vsi", "vsix", "vsixlangpack", "vsixmanifest", "vsmdi", "vspscc", "vss", "vsscc",
  "vssettings", "vssscc", "vst", "vstemplate", "vsto", "vsw", "vsx", "vtt", "vtu", "vtx", "vxml", "w3d",
  "wad", "wadl", "war", "wasm", "wbk", "wbs", "wbxml", "wcm", "wdb", "webapp", "webarchive", "webmanifest",
  "webtest", "wg", "wgt", "wiq", "wiz", "wks", "wlmp", "wlpginstall", "wlpginstall3", "wmd", "wmf", "wml",
  "wmlc", "wmls", "wmlsc", "wmz", "woff", "woff2", "wpd", "wpl", "wps", "wqd", "wri", "wrl", "wrz", "wsc",
  "wsdl", "wspolicy", "wtb", "x", "x32", "x3d", "x3db", "x3dbz", "x3dv", "x3dvz", "x3dz", "xaf", "xaml",
  "xap", "xar", "xbap", "xbd", "xdf", "xdm", "xdp", "xdr", "xdssc", "xdw", "xenc", "xer", "xfdf", "xfdl",
  "xht", "xhtml", "xhvml", "xla", "xlam", "xlc", "xld", "xlf", "xlk", "xll", "xlm", "xls", "xlsm", "xlt",
  "xlw", "xml", "xmta", "xo", "xof", "xoml", "xop", "xpi", "xpl", "xpr", "xps", "xpw", "xpx", "xrm-ms",
  "xsc", "xsd", "xsf", "xsl", "xslt", "xsm", "xspf", "xss", "xul", "xvm", "xvml", "xyz", "xz", "yaml",
  "yang", "yin", "yml", "ymp", "z", "z1", "z2", "z3", "z4", "z5", "z6", "z7", "z8", "zaz", "zip", "zir",
  "zirz", "zmm"]

/-- Whether an extension, in upper or lower case, is registered for a type that is not binary. -/
def isRegisteredText (extension : String) : Bool :=
  textExtensions.contains (String.ofList (extension.toList.flatMap Text.foldToAscii))

/-- The registry as far as it tells text from the rest. -/
def registeredType? (extension : String) : Option MediaType :=
  if isRegisteredText extension then some ⟨"text", "plain"⟩ else none

/-! ## Files -/

/-- Extensions of source files without outlines. -/
def sourceExtensions : List String :=
  ["vue", "svelte", "scss", "sass", "less", "prisma", "sql"]

/-- Whether a file with this lower-case extension is likely binary. A file without one is not. -/
def isLikelyBinary (mediaType? : String → Option MediaType) (extension : Option String) : Bool :=
  match extension with
  | none => false
  | some e =>
    !Outline.isSupported e && !sourceExtensions.contains e && ((mediaType? e).getD .bytes).isBinary

end RepoScope.Content
