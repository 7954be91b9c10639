/-
# Dhtcrawler.Persist — from a fetched metainfo to rows of the catalogue

`createTorrentModel` and the batch of `runPersistTorrents` in `internal/dhtcrawler/persist.go`. A batch is one
transaction, and sizes go to `bigint` columns. Names and paths obey the parser's rules iff the `name.utf-8`
and `path.utf-8` values do; sizes are the declared ones iff no length is negative and the sum fits an
`int64`. Left out: the source rows, the queue jobs and the metrics.
-/
import BitAgent.Metainfo.Parse

namespace BitAgent.Dhtcrawler

open Lib Metainfo List

/-! ## The model of a torrent -/

inductive FilesStatus where
  | noInfo
  | single
  | multi
  | overThreshold
  deriving DecidableEq

/-- The files of a torrent are not there: no metainfo was read, or it had more files than are saved now. -/
def filesMissing (saveFilesThreshold : Nat) (status : FilesStatus) (count : Option Nat) : Bool :=
  decide (status = .noInfo) || (decide (status ≠ .single) && count.isNone) ||
    (decide (status = .overThreshold) && decide (count.getD 0 ≤ saveFilesThreshold))

structure TorrentFile where
  infoHash : ID
  index : Nat
  path : GoString
  size : UInt64
  deriving DecidableEq

structure TorrentPieces where
  infoHash : ID
  pieceLength : Int64
  pieces : GoString
  deriving DecidableEq

structure Torrent where
  infoHash : ID
  name : GoString
  size : UInt64
  isPrivate : Bool
  pieces : Option TorrentPieces
  files : List TorrentFile
  filesStatus : FilesStatus
  filesCount : Option Nat
  deriving DecidableEq

variable (lib : TorrentLibrary)

/-- The loop of `createTorrentModel`: the files to save, and whether it stopped at the threshold. -/
def saveFiles (hash : ID) (info : Info) (saveFilesThreshold : Nat) :
    Nat → List FileInfo → List TorrentFile × Bool
  | _, [] => ([], false)
  | i, file :: rest =>
    if i ≥ saveFilesThreshold then ([], true)
    else
      let (files, overThreshold) := saveFiles hash info saveFilesThreshold (i + 1) rest
      ({ infoHash := hash, index := i, path := lib.displayPath info file,
         size := file.length.toUInt64 } :: files, overThreshold)

def createTorrentModel (hash : ID) (info : Info) (savePieces : Bool) (saveFilesThreshold : Nat) :
    Torrent :=
  let (files, overThreshold) := saveFiles lib hash info saveFilesThreshold 0 info.files
  { infoHash := hash
    name := lib.bestName info
    size := (lib.totalLength info).toUInt64
    isPrivate := info.isPrivate.getD false
    pieces :=
      if savePieces then some { infoHash := hash, pieceLength := info.pieceLength, pieces := info.pieces }
      else none
    files := files
    filesStatus := if overThreshold then .overThreshold else if info.files.isEmpty then .single else .multi
    filesCount := if info.files.isEmpty then none else some info.files.length }

variable {info : Info} {threshold : Nat}

theorem mem_saveFiles {hash : ID} {i : Nat} {fs : List FileInfo} {tf : TorrentFile} :
    tf ∈ (saveFiles lib hash info threshold i fs).1 ↔
      ∃ j f, fs[j]? = some f ∧ i + j < threshold ∧
        tf = { infoHash := hash, index := i + j, path := lib.displayPath info f,
               size := f.length.toUInt64 } := by
  induction fs generalizing i with
  | nil => simp [saveFiles]
  | cons f fs ih =>
    unfold saveFiles
    split_ifs with hi
    · -- the loop has stopped: no later index is below the threshold either
      grind
    · simp only [mem_cons, ih]
      constructor
      · rintro (rfl | ⟨j, g, hg, hj, rfl⟩)
        · exact ⟨0, f, rfl, by omega, rfl⟩
        · refine ⟨j + 1, g, hg, by omega, ?_⟩
          rw [Nat.add_assoc, Nat.add_comm 1 j]
      · grind

theorem forall_saved_iff (hash : ID) (info : Info) (savePieces : Bool) (threshold : Nat)
    (P : GoString → UInt64 → Prop) :
    (∀ tf ∈ (createTorrentModel lib hash info savePieces threshold).files, P tf.path tf.size) ↔
      ∀ f ∈ info.files.take threshold, P (lib.displayPath info f) f.length.toUInt64 := by
  show (∀ tf ∈ (saveFiles lib hash info threshold 0 info.files).1, P tf.path tf.size) ↔ _
  constructor
  · intro hsaved f hf
    obtain ⟨j, hj⟩ := mem_iff_getElem?.mp hf
    rw [List.getElem?_take] at hj
    split_ifs at hj with hlt
    exact hsaved _ ((mem_saveFiles lib).mpr ⟨j, f, hj, by omega, rfl⟩)
  · intro hfirst tf htf
    obtain ⟨j, f, hf, hlt, rfl⟩ := (mem_saveFiles lib).mp htf
    refine hfirst f (mem_iff_getElem?.mpr ⟨j, ?_⟩)
    rw [List.getElem?_take, if_pos (by omega)]
    exact hf

/-! ## Names and paths -/

/-- Name and paths, split at slashes, obey the rules of `validateName` and `validatePath`. -/
def Torrent.ObeysRules (t : Torrent) : Prop :=
  validateName t.name = .ok () ∧ ∀ tf ∈ t.files, validatePath (tf.path.splitOn slash) = .ok ()

/-- The shown path obeys the rules, a `path.utf-8` once it is split at slashes. -/
def shownPathOk (f : FileInfo) : Prop :=
  if f.pathUtf8 = [] then f.path ≠ []
  else validatePath (f.pathUtf8.flatMap (List.splitOn slash)) = .ok ()

instance (f : FileInfo) : Decidable (shownPathOk f) :=
  inferInstanceAs (Decidable (if f.pathUtf8 = [] then f.path ≠ []
    else validatePath (f.pathUtf8.flatMap (List.splitOn slash)) = .ok ()))

theorem displayPath_ok (hlib : lib.PrefersUtf8) {f : FileInfo} (hf : f ∈ info.files)
    (hpath : validatePath f.path = .ok ()) :
    validatePath ((lib.displayPath info f).splitOn slash) = .ok () ↔ shownPathOk f := by
  rw [hlib.displayPath info f hf]
  unfold shownPathOk
  split_ifs with hutf8
  · cases hparts : f.path with
    | nil =>
      -- no component at all is shown as one empty component
      simp only [intercalate_nil, splitOn_nil, ne_eq, not_true_eq_false, iff_false]
      decide
    | cons part rest => grind [slash_not_mem, validatePath_ok, splitOn_intercalate]
  · rw [GoString.splitOn_intercalate_flatMap slash hutf8]

/-- **When the stored names obey the rules**: exactly when the `name.utf-8`, if there is one, does, and the shown path
of every saved file. -/
theorem stored_names_obey_iff (hlib : lib.PrefersUtf8) {checkers : List Checker} {hash : ID}
    {metaInfoBytes : GoString} {info : Info} (h : Accepted lib checkers hash metaInfoBytes info)
    (savePieces : Bool) (threshold : Nat) :
    (createTorrentModel lib hash info savePieces threshold).ObeysRules ↔
      (info.nameUtf8 ≠ [] → validateName info.nameUtf8 = .ok ()) ∧
        ∀ f ∈ info.files.take threshold, shownPathOk f := by
  obtain ⟨hname, hpaths⟩ := parseMetaInfoBytes_ok h.parsed
  have hshown : validateName (lib.bestName info) = .ok () ↔
      (info.nameUtf8 ≠ [] → validateName info.nameUtf8 = .ok ()) := by
    rw [hlib.bestName]
    grind
  unfold Torrent.ObeysRules
  rw [forall_saved_iff lib hash info savePieces threshold fun path _ => validatePath (path.splitOn slash) = .ok ()]
  refine and_congr hshown (forall₂_congr fun f hf => ?_)
  grind [displayPath_ok]

/-- A torrent library that reads one dictionary. -/
def sampleLibrary (info : Info) : TorrentLibrary where
  hashBytes _ := []
  unmarshal _ := .ok info
  bestName i := if i.nameUtf8 = [] then i.name else i.nameUtf8
  displayPath _ f := [slash].intercalate (if f.pathUtf8 = [] then f.path else f.pathUtf8)
  totalLength i := i.lengths.foldl (· + ·) 0

theorem sampleLibrary_prefersUtf8 (info : Info) : (sampleLibrary info).PrefersUtf8 := ⟨fun _ => rfl, fun _ _ _ => rfl⟩

def plainNames : Info where
  pieceLength := 16384
  name := .ofString "plain name"
  nameUtf8 := .ofString "plain näme"
  files :=
    [{ length := 4096, path := [.ofString "film.mkv"] },
     { length := 100, path := [.ofString "subs", .ofString "film.srt"] }]

theorem plainNames_accepted : Accepted (sampleLibrary plainNames) [] [] [] plainNames := ⟨by decide, by decide⟩

theorem plain_names_obey :
    (createTorrentModel (sampleLibrary plainNames) [] plainNames false 100).ObeysRules :=
  (stored_names_obey_iff (sampleLibrary plainNames) (sampleLibrary_prefersUtf8 plainNames)
    plainNames_accepted false 100).mpr ⟨by decide, by decide⟩

/-- Harmless `name` and `path`, a bell in the `name.utf-8`, a traversal in the `path.utf-8`. -/
def hiddenNames : Info where
  pieceLength := 16384
  name := .ofString "harmless name"
  nameUtf8 := .ofString "bell\x07 in the name"
  files :=
    [{ length := 4096, path := [.ofString "film.mkv"],
       pathUtf8 := [.ofString "..", .ofString "passwd"] }]

/-- **The rules can be passed by**: neither name nor path of this accepted dictionary obeys them. -/
theorem hidden_names_stored :
    Accepted (sampleLibrary hiddenNames) [] [] [] hiddenNames ∧
      validateName (createTorrentModel (sampleLibrary hiddenNames) [] hiddenNames false 100).name =
        .error .controlChar ∧
      (createTorrentModel (sampleLibrary hiddenNames) [] hiddenNames false 100).files.map
        (fun tf => validatePath (tf.path.splitOn slash)) = [.error .pathTraversal] := by
  refine ⟨⟨?_, ?_⟩, ?_, ?_⟩
  · decide
  · decide
  · decide
  · decide

/-! ## A batch -/

/-- The models: of the eligible torrents the first of each hash; `seen` are the hashes so far. -/
def batchModels (eligible : ID → GoString → Bool) (savePieces : Bool) (threshold : Nat) :
    List ID → List (ID × Info) → List Torrent
  | _, [] => []
  | seen, (hash, info) :: rest =>
    if !eligible hash (lib.bestName info) then batchModels eligible savePieces threshold seen rest
    else if seen.contains hash then batchModels eligible savePieces threshold seen rest
    else
      createTorrentModel lib hash info savePieces threshold ::
        batchModels eligible savePieces threshold (hash :: seen) rest

/-- Writing numbers to `bigint` columns. -/
def writeSizes : List UInt64 → Except String Unit
  | [] => .ok ()
  | n :: ns => do
      reject (decide (n.toNat ≥ 2 ^ 63)) "value out of range for type bigint"
      writeSizes ns

/-- The transaction of `runPersistTorrents`, as far as sizes are concerned, with the models that are now in the
catalogue. -/
def persistTorrents (eligible : ID → GoString → Bool) (savePieces : Bool) (threshold : Nat)
    (batch : List (ID × Info)) : Except String (List Torrent) := do
  let models := batchModels lib eligible savePieces threshold [] batch
  writeSizes (models.map (·.size))
  writeSizes ((models.flatMap (·.files)).map (·.size))
  .ok models

def Torrent.SizesFit (t : Torrent) : Prop := t.size.toNat < 2 ^ 63 ∧ ∀ tf ∈ t.files, tf.size.toNat < 2 ^ 63

theorem writeSizes_ok {ns : List UInt64} : writeSizes ns = .ok () ↔ ∀ n ∈ ns, n.toNat < 2 ^ 63 := by
  induction ns with
  | nil => simp [writeSizes]
  | cons n ns ih => grind [writeSizes, reject_bind_eq_ok]

variable {eligible : ID → GoString → Bool}

theorem persistTorrents_ok {savePieces : Bool} {batch : List (ID × Info)} :
    (∃ ts, persistTorrents lib eligible savePieces threshold batch = .ok ts) ↔
      ∀ t ∈ batchModels lib eligible savePieces threshold [] batch, t.SizesFit := by
  unfold persistTorrents
  simp only [checked_bind_iff, writeSizes_ok, Except.ok.injEq, exists_and_left, exists_eq', and_true]
  grind [Torrent.SizesFit]

section
variable {eligible : ID → GoString → Bool} {savePieces : Bool} {threshold : Nat}

theorem batchModels_antitone {seen seen' : List ID} (hsub : seen ⊆ seen') {batch : List (ID × Info)}
    {t : Torrent} (ht : t ∈ batchModels lib eligible savePieces threshold seen' batch) :
    t ∈ batchModels lib eligible savePieces threshold seen batch := by
  induction batch generalizing seen seen' with
  | nil => cases ht
  | cons item rest ih =>
    obtain ⟨hash, info⟩ := item
    unfold batchModels at ht ⊢
    split_ifs at ht ⊢ with helig hseen hseen' hseen'
    · exact ih hsub ht
    · exact ih hsub ht
    · grind
    · -- the item is new here and was dropped there
      grind
    · grind

theorem mem_batchModels_insert {seen : List ID} {pre post : List (ID × Info)} {hash : ID} {t : Torrent}
    (ht : t ∈ batchModels lib eligible savePieces threshold seen (pre ++ (hash, info) :: post)) :
    t ∈ batchModels lib eligible savePieces threshold seen (pre ++ post) ∨
      t = createTorrentModel lib hash info savePieces threshold := by
  induction pre generalizing seen with
  | nil => grind [batchModels, batchModels_antitone, subset_cons_self]
  | cons item pre ih => grind [batchModels]

end

/-! ## Sizes -/

def declaredLength (info : Info) : Int := (info.lengths.map Int64.toInt).sum

/-- The sizes are from 0 to `2^63 - 1`, and the torrent's is the sum of the declared lengths. -/
def SizesExact (t : Torrent) (info : Info) : Prop := t.SizesFit ∧ (t.size.toNat : Int) = declaredLength info

/-- No batch that could be written without an item fails with it. -/
def NeverFailsBatch (hash : ID) (info : Info) (eligible : ID → GoString → Bool) (savePieces : Bool)
    (threshold : Nat) : Prop :=
  ∀ pre post, (∃ ts, persistTorrents lib eligible savePieces threshold (pre ++ post) = .ok ts) →
    ∃ ts, persistTorrents lib eligible savePieces threshold (pre ++ (hash, info) :: post) = .ok ts

theorem neverFailsBatch {hash : ID} {savePieces : Bool}
    (hfit : (createTorrentModel lib hash info savePieces threshold).SizesFit) :
    NeverFailsBatch lib hash info eligible savePieces threshold := by
  intro pre post hwithout
  rw [persistTorrents_ok] at hwithout ⊢
  grind [mem_batchModels_insert]

/-- **When the stored sizes are the declared ones**, and the batch does not fail: exactly when no declared length of a
saved file is negative and the sum of all is a signed 64-bit integer. -/
theorem stored_sizes_exact_iff (hlib : lib.AddsLengths) {checkers : List Checker} {hash : ID}
    {metaInfoBytes : GoString} {info : Info} (h : Accepted lib checkers hash metaInfoBytes info)
    (eligible : ID → GoString → Bool) (savePieces : Bool) (threshold : Nat) :
    (SizesExact (createTorrentModel lib hash info savePieces threshold) info ∧
      NeverFailsBatch lib hash info eligible savePieces threshold) ↔
      (∀ f ∈ info.files.take threshold, 0 ≤ f.length) ∧
        -2 ^ 63 ≤ declaredLength info ∧ declaredLength info < 2 ^ 63 := by
  -- the ban check has seen the wrapped sum, so it is not negative
  have htotal : 0 ≤ lib.totalLength info := Int64.le_trans (by decide) h.totalLength
  have hsize : ((lib.totalLength info).toUInt64.toNat : Int) = declaredLength info ↔
      -2 ^ 63 ≤ declaredLength info ∧ declaredLength info < 2 ^ 63 := by
    have hnonneg : 0 ≤ (lib.totalLength info).toInt := Int64.le_iff_toInt_le.mp htotal
    rw [toNat_toUInt64, if_pos hnonneg, hlib info]
    exact toInt_foldl_add_eq_iff info.lengths
  have hfiles := forall_saved_iff lib hash info savePieces threshold fun _ size => size.toNat < 2 ^ 63
  simp only [toNat_toUInt64_lt_iff] at hfiles
  have hfit : (createTorrentModel lib hash info savePieces threshold).SizesFit ↔
      ∀ f ∈ info.files.take threshold, 0 ≤ f.length := by
    rw [← hfiles]
    exact and_iff_right ((toNat_toUInt64_lt_iff _).mpr htotal)
  constructor
  · rintro ⟨⟨hfits, hexact⟩, -⟩
    exact ⟨hfit.mp hfits, hsize.mp hexact⟩
  · rintro ⟨hnonneg, hrange⟩
    have hfits := hfit.mpr hnonneg
    exact ⟨⟨hfits, hsize.mpr hrange⟩, neverFailsBatch lib hfits⟩

theorem plain_sizes_exact :
    SizesExact (createTorrentModel (sampleLibrary plainNames) [] plainNames false 100) plainNames ∧
      NeverFailsBatch (sampleLibrary plainNames) [] plainNames (fun _ _ => true) false 100 :=
  (stored_sizes_exact_iff (sampleLibrary plainNames) (fun _ => rfl) plainNames_accepted
    (fun _ _ => true) false 100).mpr ⟨by decide, by decide, by decide⟩

def negativeLength : Info where
  pieceLength := 16384
  name := .ofString "negative"
  files := [{ length := 2000, path := [.ofString "a"] }, { length := -5, path := [.ofString "b"] }]

/-- **One metainfo fails a batch.** The size of its second file becomes `2^64 - 5`. -/
theorem negative_length_fails_batch :
    Accepted (sampleLibrary negativeLength) [] [] [] negativeLength ∧
      (createTorrentModel (sampleLibrary negativeLength) [] negativeLength false 100).files.map
        (·.size.toNat) = [2000, 2 ^ 64 - 5] ∧
      (∃ ts, persistTorrents (sampleLibrary negativeLength) (fun _ _ => true) false 100 [([1], plainNames)] = .ok ts) ∧
      persistTorrents (sampleLibrary negativeLength) (fun _ _ => true) false 100
        [([1], plainNames), ([2], negativeLength)] = .error "value out of range for type bigint" := by
  refine ⟨⟨?_, ?_⟩, ?_, ⟨_, rfl⟩, ?_⟩
  · decide
  · decide
  · decide
  · decide

end BitAgent.Dhtcrawler
