/-! The classes of characters that patterns call by name, as far as the names of beans can show
them: for every name, the ASCII characters of the class. -/

namespace Wiring.Pattern

def isHex (c : Char) : Bool := c.isDigit || ('a' ≤ c && c ≤ 'f') || ('A' ≤ c && c ≤ 'F')

def isSpace (c : Char) : Bool := c == ' ' || ('\t' ≤ c && c ≤ '\r')

/-- The classes that stand in brackets with colons. -/
def asciiClass? : String → Option (Char → Bool)
  | "alnum" => some Char.isAlphanum
  | "alpha" => some Char.isAlpha
  | "ascii" => some fun c => c.toNat < 0x80
  | "blank" => some fun c => c == ' ' || c == '\t'
  | "cntrl" => some fun c => c.toNat < 0x20 || c.toNat == 0x7F
  | "digit" => some Char.isDigit
  | "graph" => some fun c => '!' ≤ c && c ≤ '~'
  | "lower" => some Char.isLower
  | "print" => some fun c => ' ' ≤ c && c ≤ '~'
  | "punct" => some fun c => '!' ≤ c && c ≤ '~' && !c.isAlphanum
  | "space" => some isSpace
  | "upper" => some Char.isUpper
  | "word" => some fun c => c.isAlphanum || c == '_'
  | "xdigit" => some isHex
  | _ => none

def signs : List (String × List Char) :=
  [("Pc", ['_']), ("Pd", ['-']), ("Ps", ['(', '[', '\x7b']), ("Pe", [')', ']', '\x7d']),
    ("Po", ['!', '"', '#', '%', '&', '\x27', '*', ',', '.', '/', ':', ';', '?', '@', '\\']),
    ("Sm", ['+', '<', '=', '>', '|', '~']), ("Sc", ['$']), ("Sk", ['^', '\x60']), ("Zs", [' '])]

def category (c : Char) : String :=
  if c.isUpper then "Lu"
  else if c.isLower then "Ll"
  else if c.isDigit then "Nd"
  else if c.toNat < 0x20 || c.toNat == 0x7F then "Cc"
  else ((signs.find? fun s => s.2.contains c).map (·.1)).getD "Cn"

/-- Long names of general categories, without blanks, hyphens and underscores, and what they stand
for; one letter stands for all categories that begin with it. -/
def categoryNames : List (String × String) :=
  [("letter", "L"), ("uppercaseletter", "Lu"), ("lowercaseletter", "Ll"),
    ("titlecaseletter", "Lt"), ("modifierletter", "Lm"), ("otherletter", "Lo"), ("mark", "M"),
    ("combiningmark", "M"), ("nonspacingmark", "Mn"), ("spacingmark", "Mc"),
    ("enclosingmark", "Me"), ("number", "N"), ("decimalnumber", "Nd"), ("digit", "Nd"),
    ("letternumber", "Nl"), ("othernumber", "No"), ("punctuation", "P"), ("punct", "P"),
    ("connectorpunctuation", "Pc"), ("dashpunctuation", "Pd"), ("openpunctuation", "Ps"),
    ("closepunctuation", "Pe"), ("initialpunctuation", "Pi"), ("finalpunctuation", "Pf"),
    ("otherpunctuation", "Po"), ("symbol", "S"), ("mathsymbol", "Sm"), ("currencysymbol", "Sc"),
    ("modifiersymbol", "Sk"), ("othersymbol", "So"), ("separator", "Z"), ("spaceseparator", "Zs"),
    ("lineseparator", "Zl"), ("paragraphseparator", "Zp"), ("other", "C"), ("control", "Cc"),
    ("cntrl", "Cc"), ("format", "Cf"), ("surrogate", "Cs"), ("privateuse", "Co"),
    ("unassigned", "Cn"), ("l", "L"), ("lu", "Lu"), ("ll", "Ll"), ("lt", "Lt"), ("lm", "Lm"),
    ("lo", "Lo"), ("m", "M"), ("mn", "Mn"), ("mc", "Mc"), ("me", "Me"), ("n", "N"), ("nd", "Nd"),
    ("nl", "Nl"), ("no", "No"), ("p", "P"), ("pc", "Pc"), ("pd", "Pd"), ("ps", "Ps"), ("pe", "Pe"),
    ("pi", "Pi"), ("pf", "Pf"), ("po", "Po"), ("s", "S"), ("sm", "Sm"), ("sc", "Sc"), ("sk", "Sk"),
    ("so", "So"), ("z", "Z"), ("zs", "Zs"), ("zl", "Zl"), ("zp", "Zp"), ("c", "C"), ("cf", "Cf"),
    ("co", "Co"), ("cn", "Cn"), ("lc", "L"), ("casedletter", "L")]

/-- Scripts without letters in ASCII, by their long and their short names. -/
def scriptNames : List String :=
  String.splitOn
    ("adlam adlm caucasianalbanian aghb ahom arabic arab imperialaramaic armi armenian armn " ++
    "avestan avst balinese bali bamum bamu bassavah bass batak batk bengali beng bhaiksuki bhks " ++
    "bopomofo bopo brahmi brah braille brai buginese bugi buhid buhd chakma cakm " ++
    "canadianaboriginal cans carian cari cham cherokee cher chorasmian chrs coptic copt qaac " ++
    "cyprominoan cpmn cypriot cprt cyrillic cyrl devanagari deva divesakuru diak dogra dogr " ++
    "deseret dsrt duployan dupl egyptianhieroglyphs egyp elbasan elba elymaic elym ethiopic ethi " ++
    "garay gara georgian geor glagolitic glag gunjalagondi gong masaramgondi gonm gothic goth " ++
    "grantha gran greek grek gujarati gujr gurungkhema gukh gurmukhi guru hangul hang han hani " ++
    "hanunoo hano hatran hatr hebrew hebr hiragana hira anatolianhieroglyphs hluw pahawhhmong " ++
    "hmng nyiakengpuachuehmong hmnp oldhungarian hung olditalic ital javanese java kayahli kali " ++
    "katakana kana kawi kharoshthi khar khmer khmr khojki khoj khitansmallscript kits kannada " ++
    "knda kiratrai krai kaithi kthi taitham lana lao laoo lepcha lepc limbu limb lineara lina " ++
    "linearb linb lisu lycian lyci lydian lydi mahajani mahj makasar maka mandaic mand manichaean " ++
    "mani marchen marc medefaidrin medf mendekikakui mend meroiticcursive merc " ++
    "meroitichieroglyphs mero malayalam mlym modi mongolian mong mro mroo meeteimayek mtei " ++
    "multani mult myanmar mymr nagmundari nagm nandinagari nand oldnortharabian narb nabataean " ++
    "nbat newa nko nkoo nushu nshu ogham ogam olchiki olck olonal onao oldturkic orkh oriya orya " ++
    "osage osge osmanya osma olduyghur ougr palmyrene palm paucinhau pauc oldpermic perm phagspa " ++
    "phag inscriptionalpahlavi phli psalterpahlavi phlp phoenician phnx miao plrd " ++
    "inscriptionalparthian prti inherited qaai rejang rjng hanifirohingya rohg runic runr " ++
    "samaritan samr oldsoutharabian sarb saurashtra saur signwriting sgnw shavian shaw sharada " ++
    "shrd siddham sidd khudawadi sind sinhala sinh sogdian sogd oldsogdian sogo sorasompeng sora " ++
    "soyombo soyo sundanese sund sunuwar sunu sylotinagri sylo syriac syrc tagbanwa tagb takri " ++
    "takr taile tale newtailue talu tamil taml tangut tang taiviet tavt telugu telu tifinagh tfng " ++
    "tagalog tglg thaana thaa thai tibetan tibt tirhuta tirh tangsa tnsa todhri todr toto " ++
    "tulutigalari tutg ugaritic ugar vai vaii vithkuqi vith warangciti wara wancho wcho " ++
    "oldpersian xpeo cuneiform xsux yezidi yezi yi yiii zanabazarsquare zanb zinh") " "

/-- A name of a class in the form that names are compared in. -/
def normalized (name : List Char) : String :=
  let kept :=
    (name.filter fun c => !(c == ' ' || c == '_' || c == '-' || c == '\t')).map Char.toLower
  String.ofList (match kept with
    | 'i' :: 's' :: rest => if rest.isEmpty || rest == ['c'] then kept else rest
    | _ => kept)

def ofCategory? (name : String) : Option (Char → Bool) := do
  let wanted ← categoryNames.lookup name
  return fun c => wanted.toList.isPrefixOf (category c).toList

def ofScript? (name : String) : Option (Char → Bool) :=
  if name == "latin" || name == "latn" then some Char.isAlpha
  else if name == "common" || name == "zyyy" then some fun c => c.toNat < 0x80 && !c.isAlpha
  else if name ∈ scriptNames then some fun _ => false
  else none

def isOneOf (text : String) (c : Char) : Bool := text.toList.contains c

/-- Properties that no character of ASCII has, by their long and their short names. -/
def farProperties : List String :=
  String.splitOn
    ("bidicontrol bidic defaultignorablecodepoint di deprecated dep emojimodifier emod " ++
    "emojimodifierbase ebase emojipresentation epres extendedpictographic extpict extender ext " ++
    "graphemeextend grext graphemelink grlink idsbinaryoperator idsb idstrinaryoperator idst " ++
    "idsunaryoperator idsu ideographic ideo joincontrol joinc logicalorderexception loe " ++
    "noncharactercodepoint nchar otheralphabetic oalpha otherdefaultignorablecodepoint odi " ++
    "othergraphemeextend ogrext otheridcontinue oidc otheridstart oids otherlowercase olower " ++
    "otheruppercase oupper prependedconcatenationmark pcm radical regionalindicator ri " ++
    "unifiedideograph uideo variationselector vs") " "

def ofBinary? (name : String) : Option (Char → Bool) :=
  match name with
  | "any" | "assigned" => some fun _ => true
  | "ascii" => some fun c => c.toNat < 0x80
  | "asciihexdigit" | "ahex" | "hexdigit" | "hex" => some isHex
  | "alphabetic" | "alpha" | "cased" | "changeswhencasemapped" | "cwcm" | "idstart" | "ids"
  | "xidstart" | "xids" => some Char.isAlpha
  | "bidimirrored" | "bidim" => some (isOneOf "()<>[]\x7b\x7d")
  | "caseignorable" | "ci" => some (isOneOf "'.:^\x60")
  | "uppercase" | "upper" | "changeswhencasefolded" | "cwcf" | "changeswhenlowercased" | "cwl" =>
    some Char.isUpper
  | "lowercase" | "lower" | "changeswhentitlecased" | "cwt" | "changeswhenuppercased" | "cwu" =>
    some Char.isLower
  | "dash" | "hyphen" => some (isOneOf "-")
  | "diacritic" | "dia" => some (isOneOf "^\x60")
  | "emoji" | "emojicomponent" | "ecomp" => some fun c => c.isDigit || isOneOf "#*" c
  | "graphemebase" | "grbase" => some fun c => ' ' ≤ c && c ≤ '~'
  | "idcontinue" | "idc" | "xidcontinue" | "xidc" => some fun c => c.isAlphanum || c == '_'
  | "math" => some (isOneOf "+<=>^|~")
  | "othermath" | "omath" => some (isOneOf "^")
  | "patternsyntax" | "patsyn" => some fun c => '!' ≤ c && c ≤ '~' && !c.isAlphanum && c != '_'
  | "patternwhitespace" | "patws" | "whitespace" | "wspace" | "space" => some isSpace
  | "quotationmark" | "qmark" => some (isOneOf "'\"")
  | "sentenceterminal" | "sterm" => some (isOneOf "!.?")
  | "softdotted" | "sd" => some (isOneOf "ij")
  | "terminalpunctuation" | "term" => some (isOneOf "!,.:;?")
  | _ => if name ∈ farProperties then some fun _ => false else none

def property? (name : List Char) : Option (Char → Bool) :=
  let n := normalized name
  if n == "sc" || n == "lc" then ofCategory? n
  else (ofBinary? n).or ((ofCategory? n).or (ofScript? n))

/-- Why there is no class for a property and its value. -/
inductive PropertyFault
  | unknownProperty
  | unknownValue
deriving DecidableEq

def propertyValue? (name value : List Char) : Except PropertyFault (Char → Bool) :=
  let v := normalized value
  let found? :=
    match normalized name with
    | "generalcategory" | "gc" => some ((ofBinary? v).or (ofCategory? v))
    | "script" | "sc" | "scriptextensions" | "scx" => some (ofScript? v)
    | _ => none
  match found? with
  | none => .error .unknownProperty
  | some none => .error .unknownValue
  | some (some condition) => .ok condition

end Wiring.Pattern
