/-
# Evidence.Priors — the features of a release that outcome priors are kept for

`Extract` of `internal/evidence/priors/features.go`: release group, quality tag, resolution and codec of a release
title, the file extension, and the trackers. What `strings.ToLower` makes of a character outside ASCII is left open,
as far as no pattern reads one (`Lowering`).
-/
import BitAgent.Catalogueguard.Tags
import BitAgent.Lib.CharClasses
import Mathlib.Data.List.Sort

namespace BitAgent.Priors

open Lib.Words Catalogueguard List

/-! ## Texts -/

/-- `unicode.ToLower`, known on the characters that fold to ASCII ones. -/
structure Lowering where
  lower : Char → Char
  exact : ∀ c, (foldCase c).toNat < 128 → lower c = lowerChar c

def Lowering.ascii : Lowering := ⟨lowerChar, fun _ _ => rfl⟩
def Lowering.toLower (u : Lowering) (l : List Char) : List Char := l.map u.lower

/-- `\w`. -/
def wordChar (c : Char) : Bool := c.isAlphanum || c == '_'

/-- `FindString` of `(?i)\b(words)\b`. -/
def findString (words : List String) (name : String) : List Char :=
  (findWord wordChar foldCase (words.map String.toList) none name.toList).getD []

/-- `path.Ext`. -/
def pathExt (name : List Char) : List Char :=
  let base := name.rtakeWhile (· ≠ '/')
  if '.' ∈ base then '.' :: base.rtakeWhile (· ≠ '.') else []

/-- `strings.TrimPrefix`. -/
def trimPre (pre l : List Char) : List Char := if pre.isPrefixOf l then l.drop pre.length else l

/-! ## Features -/

structure FeatureKey where
  type : String
  value : String
  deriving DecidableEq

variable (u : Lowering)

def normaliseSource (s : String) : String :=
  let s := u.toLower (trimSpace s)
  if s = [] then "" else
    let s := ["udp://", "http://", "https://"].foldl (fun s pre => trimPre pre.toList s) s
    let s := s.takeWhile (· ≠ '/')
    let s := s.takeWhile (· ≠ ':')
    let s := ["www.", "tracker.", "open.", "explodie."].foldl (fun s pre => trimPre pre.toList s) s
    let parts := s.splitOn '.'
    String.ofList (if 2 ≤ parts.length then List.intercalate ['.'] (parts.drop (parts.length - 2)) else s)

def normaliseExtension (ext : String) : String :=
  let ext := String.ofList (trimPre ['.'] (u.toLower (trimSpace ext)))
  if ext.utf8ByteSize > 8 then "" else ext

/-- `(?:\.[A-Za-z0-9]{1,4})?$`. -/
def shortExtension : List Char → Bool
  | [] => true
  | c :: ext => c == '.' && decide (1 ≤ ext.length) && decide (ext.length ≤ 4) && ext.all Char.isAlphanum

/-- The group of `-([A-Za-z0-9]{2,16})(?:\.[A-Za-z0-9]{1,4})?$`; the hyphen is the last one of the text. -/
def releaseGroupRe (name : List Char) : Option (List Char) :=
  let tail := name.rtakeWhile (· ≠ '-')
  let group := tail.takeWhile Char.isAlphanum
  if '-' ∈ name ∧ 2 ≤ group.length ∧ group.length ≤ 16 ∧
      shortExtension (tail.dropWhile Char.isAlphanum) then
    some group
  else none

def notGroups : List String := ["1080p", "720p", "2160p", "480p", "x264", "x265", "h264", "h265", "av1", "hevc"]

def stripExtension (name : List Char) : List Char :=
  let ext := pathExt name
  if ext ≠ [] ∧ (String.ofList ext).utf8ByteSize ≤ 5 then name.take (name.length - ext.length)
  else name

def extractReleaseGroup (name : String) : String :=
  match releaseGroupRe (stripExtension (trimSpace name)) with
  | none => ""
  | some group =>
    let g := String.ofList (u.toLower group)
    if notGroups.contains g then "" else g

/-- The words of `qualityTagRe`, folded. -/
def qualityTags : List String :=
  ["web-dl", "webrip", "web", "bluray", "bdrip", "brrip", "hdtv", "dvdrip", "remux", "hdrip", "cam",
   "hdcam", "ts", "tc"]

/-- The words of `resolutionRe`. -/
def resolutions : List String := ["2160p", "1440p", "1080p", "720p", "480p", "360p"]

/-- The words of `codecRe`, optional points written out. -/
def codecs : List String := ["x265", "x264", "h.265", "h265", "h.264", "h264", "hevc", "av1", "avc", "xvid", "divx"]

def extractQualityTag (name : String) : String :=
  String.ofList (u.toLower ((findString qualityTags name).filter (· ≠ '-')))

def extractResolution (name : String) : String := String.ofList (u.toLower (findString resolutions name))

def extractCodec (name : String) : String :=
  let c := String.ofList ((u.toLower (findString codecs name)).filter (· ≠ '.'))
  if c = "h265" ∨ c = "hevc" then "x265" else if c = "h264" ∨ c = "avc" then "x264" else c

def FeatureKey.less (a b : FeatureKey) : Bool :=
  if a.type ≠ b.type then decide (a.type < b.type) else decide (a.value < b.value)

def feature (type value : String) : List FeatureKey := if value = "" then [] else [⟨type, value⟩]

def extract (releaseTitle : String) (sources : List String) (primaryExt : String) : List FeatureKey :=
  let keys := sources.flatMap (fun src => feature "source" (normaliseSource u src)) ++
    feature "release_group" (extractReleaseGroup u releaseTitle) ++
    feature "quality_tag" (extractQualityTag u releaseTitle) ++
    feature "resolution" (extractResolution u releaseTitle) ++
    feature "codec" (extractCodec u releaseTitle) ++
    feature "extension" (normaliseExtension u primaryExt)
  (keys.insertionSort fun a b => !(b.less a)).eraseDups

example : extract .ascii "Some.Film.2020.1080p.WEB-DL.H.264-GRP.mkv" [] ".MKV" =
    [⟨"codec", "x264"⟩, ⟨"extension", "mkv"⟩, ⟨"quality_tag", "webdl"⟩, ⟨"release_group", "grp"⟩,
      ⟨"resolution", "1080p"⟩] := by decide +kernel

end BitAgent.Priors
