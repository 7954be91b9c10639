/-
# Metainfo.Parse — the metainfo parser and the ban checks

`internal/protocol/metainfo/{parse,validate}.go` and its `banning` package. An `Info` is what `bencode.Unmarshal` makes
of an info dictionary: a missing text is empty, a missing list is empty, and lengths are signed 64-bit integers. The
file tree of the second version is read by nothing and left out. The torrent library is a parameter; what it is
documented to return is stated as hypotheses where it is needed.
-/
import BitAgent.Lib.GoString
import BitAgent.Lib.Prelude

namespace BitAgent.Metainfo

open Lib

abbrev ID := GoString

/-! ## The torrent library -/

structure FileInfo where
  length : Int64
  path : List GoString
  pathUtf8 : List GoString := []
  deriving DecidableEq

structure Info where
  pieceLength : Int64
  pieces : GoString := []
  name : GoString
  nameUtf8 : GoString := []
  length : Int64 := 0
  isPrivate : Option Bool := none
  files : List FileInfo := []
  deriving DecidableEq

/-- The lengths that an info dictionary declares, of its files or its one file. -/
def Info.lengths (info : Info) : List Int64 := if info.files.isEmpty then [info.length] else info.files.map (·.length)

structure TorrentLibrary where
  hashBytes : GoString → ID
  unmarshal : GoString → Except String Info
  bestName : Info → GoString
  displayPath : Info → FileInfo → GoString
  totalLength : Info → Int64

def slash : UInt8 := 0x2F

/-- `BestName` and `DisplayPath` prefer `name.utf-8` and `path.utf-8`; paths are joined by slashes. This is for
dictionaries without meta version 2: of a hybrid torrent the library reads the file tree. -/
structure TorrentLibrary.PrefersUtf8 (lib : TorrentLibrary) : Prop where
  bestName : ∀ info : Info, lib.bestName info = if info.nameUtf8 = [] then info.name else info.nameUtf8
  displayPath : ∀ (info : Info), ∀ f ∈ info.files,
    lib.displayPath info f = [slash].intercalate (if f.pathUtf8 = [] then f.path else f.pathUtf8)

/-- `TotalLength` adds up the declared lengths in an `int64`, in dictionaries without meta version 2. -/
def TorrentLibrary.AddsLengths (lib : TorrentLibrary) : Prop :=
  ∀ info : Info, lib.totalLength info = info.lengths.foldl (· + ·) 0

/-! ## Validation -/

inductive Violation where
  | metaInfoTooLarge
  | invalidUTF8
  | nullByte
  | controlChar
  | emptyName
  | nameTooLong
  | emptyPathComponent
  | pathTraversal
  | absolutePath
  | pathTooLong
  | pathTooDeep
  | tooManyFiles
  | pieceLenOutOfRange
  deriving DecidableEq

def Violation.message : Violation → String
  | .metaInfoTooLarge => "metainfo bytes exceed MaxMetaInfoBytes"
  | .invalidUTF8 => "string field contains invalid UTF-8"
  | .nullByte => "string field contains a NUL byte"
  | .controlChar => "string field contains a control character outside \\t\\n\\r"
  | .emptyName => "Info.Name is empty"
  | .nameTooLong => "Info.Name exceeds MaxNameLen"
  | .emptyPathComponent => "Files[i].Path contains an empty component"
  | .pathTraversal => "Files[i].Path contains \".\" or \"..\""
  | .absolutePath => "Files[i].Path component contains a path separator"
  | .pathTooLong => "Files[i].Path component exceeds MaxPathComponentLen"
  | .pathTooDeep => "Files[i].Path exceeds MaxPathDepth"
  | .tooManyFiles => "Files count exceeds MaxFilesCount"
  | .pieceLenOutOfRange => "PieceLength outside [MinPieceLen, MaxPieceLen]"

inductive Field where
  | bytes (length : Nat)
  | name
  | pieceLength (value : Int64)
  | files (count : Nat)
  | path (index : Nat)
  deriving DecidableEq

def Field.label : Field → String
  | .bytes length => "metainfo bytes (" ++ toString length ++ ")"
  | .name => "Info.Name"
  | .pieceLength value => "Info.PieceLength (" ++ toString value ++ ")"
  | .files count => "Info.Files (" ++ toString count ++ ")"
  | .path index => "Info.Files[" ++ toString index ++ "].Path"

/-- The errors of `ParseMetaInfoBytes`. -/
inductive ParseError where
  | invalid (field : Field) (violation : Violation)
  | wrongHash
  | unmarshal (text : String)
  deriving DecidableEq

def ParseError.message : ParseError → String
  | .invalid field violation => field.label ++ ": " ++ violation.message
  | .wrongHash => "info bytes have wrong hash"
  | .unmarshal text => "error unmarshaling info bytes: " ++ text

def maxMetaInfoBytes : Nat := 10 * 1024 * 1024
def maxNameLen : Nat := 256
def maxPathComponentLen : Nat := 255
def maxPathDepth : Nat := 64
def maxFilesCount : Nat := 100000
def maxPieceLen : Int64 := 16 * 1024 * 1024
def minPieceLen : Int64 := 1
def isBadControl (r : Nat) : Bool := decide (r < 0x20) || r == 0x7F

/-- What `validateName` finds wrong with a rune. -/
def nameRune (r : Nat) : Option Violation :=
  if r == 0 then some .nullByte else if isBadControl r then some .controlChar else none

/-- What `validatePath` finds wrong with a rune. -/
def pathRune (r : Nat) : Option Violation :=
  (nameRune r).or (if r == 0x2F || r == 0x5C then some .absolutePath else none)

def checkRunes (bad : Nat → Option Violation) (s : GoString) : Except Violation Unit :=
  match s.runes with
  | none => .error .invalidUTF8
  | some rs =>
    match rs.findSome? bad with
    | some v => .error v
    | none => .ok ()

def validateName (name : GoString) : Except Violation Unit := do
  reject name.isEmpty .emptyName
  reject (decide (name.length > maxNameLen)) .nameTooLong
  checkRunes nameRune name

/-- The body of the loop of `validatePath`. -/
def validateComponent (p : GoString) : Except Violation Unit := do
  reject p.isEmpty .emptyPathComponent
  reject (p == [0x2E] || p == [0x2E, 0x2E]) .pathTraversal
  reject (decide (p.length > maxPathComponentLen)) .pathTooLong
  checkRunes pathRune p

/-- The loop of `validatePath`. -/
def validateComponents : List GoString → Except Violation Unit
  | [] => .ok ()
  | p :: ps => do
      validateComponent p
      validateComponents ps

def validatePath (parts : List GoString) : Except Violation Unit := do
  reject (decide (parts.length > maxPathDepth)) .pathTooDeep
  validateComponents parts

def inField (field : Field) (result : Except Violation Unit) : Except ParseError Unit :=
  result.mapError (.invalid field)

/-- The loop of `validateInfo` over the files, from index `i`. -/
def validateFiles : Nat → List FileInfo → Except ParseError Unit
  | _, [] => .ok ()
  | i, f :: fs => do
      inField (.path i) (validatePath f.path)
      validateFiles (i + 1) fs

def validateInfo (info : Info) : Except ParseError Unit := do
  inField .name (validateName info.name)
  reject (decide (info.pieceLength < minPieceLen) || decide (info.pieceLength > maxPieceLen))
    (.invalid (.pieceLength info.pieceLength) .pieceLenOutOfRange)
  reject (decide (info.files.length > maxFilesCount)) (.invalid (.files info.files.length) .tooManyFiles)
  validateFiles 0 info.files

def parseMetaInfoBytes (lib : TorrentLibrary) (infoHash : ID) (metaInfoBytes : GoString) :
    Except ParseError Info := do
  reject (decide (metaInfoBytes.length > maxMetaInfoBytes)) (.invalid (.bytes metaInfoBytes.length) .metaInfoTooLarge)
  reject (lib.hashBytes metaInfoBytes != infoHash) .wrongHash
  let info ← (lib.unmarshal metaInfoBytes).mapError .unmarshal
  validateInfo info
  .ok info

/-! ## What an accepted dictionary looks like -/

theorem checkRunes_ok {bad : Nat → Option Violation} {s : GoString} :
    checkRunes bad s = .ok () ↔ ∃ rs, s.runes = some rs ∧ ∀ r ∈ rs, bad r = none := by
  grind [checkRunes]

theorem validateComponents_ok {parts : List GoString} :
    validateComponents parts = .ok () ↔ ∀ p ∈ parts, validateComponent p = .ok () := by
  induction parts with
  | nil => simp [validateComponents]
  | cons p ps ih => grind [validateComponents, checked_bind_iff]

theorem validatePath_ok {parts : List GoString} : validatePath parts = .ok () ↔
      parts.length ≤ maxPathDepth ∧ ∀ p ∈ parts, validateComponent p = .ok () := by
  simp [validatePath, reject_bind_eq_ok, validateComponents_ok]

theorem slash_not_mem {p : GoString} (h : validateComponent p = .ok ()) : slash ∉ p := by
  intro hmem
  unfold validateComponent at h
  obtain ⟨-, h⟩ := reject_bind_eq_ok.mp h
  obtain ⟨-, h⟩ := reject_bind_eq_ok.mp h
  obtain ⟨-, h⟩ := reject_bind_eq_ok.mp h
  obtain ⟨rs, hrs, hok⟩ := checkRunes_ok.mp h
  have hbad := hok _ (GoString.mem_runes hrs (by decide) hmem)
  revert hbad
  decide

theorem inField_ok {field : Field} {result : Except Violation Unit} :
    inField field result = .ok () ↔ result = .ok () := by
  cases result <;> simp [inField, Except.mapError]

theorem validateFiles_ok {fs : List FileInfo} {i : Nat} :
    validateFiles i fs = .ok () ↔ ∀ f ∈ fs, validatePath f.path = .ok () := by
  induction fs generalizing i with
  | nil => simp [validateFiles]
  | cons f fs ih => grind [validateFiles, checked_bind_iff, inField_ok]

variable {info : Info} {metaInfoBytes : GoString}

theorem parseMetaInfoBytes_ok {lib : TorrentLibrary} {infoHash : ID}
    (h : parseMetaInfoBytes lib infoHash metaInfoBytes = .ok info) :
    validateName info.name = .ok () ∧ ∀ f ∈ info.files, validatePath f.path = .ok () := by
  unfold parseMetaInfoBytes at h
  obtain ⟨-, h⟩ := reject_bind_eq_ok.mp h
  obtain ⟨-, h⟩ := reject_bind_eq_ok.mp h
  obtain ⟨info', -, h⟩ := accepted_bind_iff.mp h
  obtain ⟨hvalid, h⟩ := checked_bind_iff.mp h
  cases h
  unfold validateInfo at hvalid
  obtain ⟨hname, hvalid⟩ := checked_bind_iff.mp hvalid
  obtain ⟨-, hvalid⟩ := reject_bind_eq_ok.mp hvalid
  obtain ⟨-, hvalid⟩ := reject_bind_eq_ok.mp hvalid
  exact ⟨inField_ok.mp hname, validateFiles_ok.mp hvalid⟩

/-! ## The ban checks -/

abbrev Checker := Info → Except String Unit

def nameLengthChecker (lib : TorrentLibrary) (min : Nat) : Checker := fun info =>
  reject (decide ((lib.bestName info).length < min)) "name too short"

def sizeChecker (lib : TorrentLibrary) (min : Int64) : Checker := fun info =>
  reject (decide (lib.totalLength info < min)) "size too small"

def utf8Checker (lib : TorrentLibrary) : Checker := fun info =>
  let checkUtf8Strings := lib.bestName info :: info.files.map (lib.displayPath info)
  reject (checkUtf8Strings.any fun str => !GoString.validString str || str.contains 0)
    "meta info contains an invalid utf8 string"

/-- `combinedChecker`: all are asked, and their errors joined. -/
def combinedChecker (checkers : List Checker) : Checker := fun info =>
  let errs := checkers.filterMap fun c =>
    match c info with
    | .error e => some e
    | .ok () => none
  if errs.isEmpty then .ok () else .error ("\n".intercalate errs)

def banningChecker (lib : TorrentLibrary) (checkers : List Checker) : Checker :=
  combinedChecker (checkers ++ [nameLengthChecker lib 8, sizeChecker lib 1024, utf8Checker lib])

variable {checkers : List Checker}

theorem combinedChecker_ok :
    combinedChecker checkers info = .ok () ↔ ∀ c ∈ checkers, c info = .ok () := by
  grind [combinedChecker, List.filterMap_eq_nil_iff]

/-- A metainfo that the parser and the ban checks let through. -/
structure Accepted (lib : TorrentLibrary) (checkers : List Checker) (infoHash : ID)
    (metaInfoBytes : GoString) (info : Info) : Prop where
  parsed : parseMetaInfoBytes lib infoHash metaInfoBytes = .ok info
  notBanned : banningChecker lib checkers info = .ok ()

theorem Accepted.totalLength {lib : TorrentLibrary} {infoHash : ID}
    (h : Accepted lib checkers infoHash metaInfoBytes info) : 1024 ≤ lib.totalLength info := by
  have hsize := combinedChecker_ok.mp h.notBanned (sizeChecker lib 1024) (by simp)
  grind [sizeChecker, reject_eq_ok]

end BitAgent.Metainfo
