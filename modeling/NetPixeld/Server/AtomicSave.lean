import NetPixeld.Json.Reference
import NetPixeld.Server.FileFormat

/-!
# Saving under failures

A save is atomic when the file afterwards is the file before or the complete serialization. The
stream hides a failed open and a short write, so the rename can put an incomplete text in place of
the file: exactly then the save is not atomic.
-/

namespace NetPixeld.JsonDB

/-- The file after a save holds what it held before or the complete serialization, and loading it
gives the previous or the current store. -/
def AtomicSave (lib : JsonLib) (previous accounts : Accounts) (io : SaveIO) (files : Files) :
    Prop :=
  ((save lib accounts io files).1.target = files.target ∨
      ∃ content, serialization lib accounts = .ok content ∧
        (save lib accounts io files).1.target = some content) ∧
    ∃ loaded, load lib (save lib accounts io files).1.target = .ok loaded ∧
      (loaded = previous ∨ loaded = accounts)

/-- The save stops before its rename, the rename fails, or what it puts into place is the complete
serialization or what the file already holds. A failed open leaves an older `.tmp` file there. -/
def Intact (lib : JsonLib) (accounts : Accounts) (io : SaveIO) (files : Files) : Prop :=
  io.stop = some .start ∨ io.stop = some .opened ∨ io.stop = some .written ∨ io.renames = false ∨
    ∀ content, serialization lib accounts = .ok content →
      if io.opens then io.reaching content = content ∨ files.target = some (io.reaching content)
      else ∀ stale, files.tmp = some stale → stale = content ∨ files.target = some stale

/-- With the disk full during the save that adds a second account, the file is empty afterwards and
no store can be loaded from it. -/
theorem not_atomicSave_short_write :
    let previous : Accounts := (∅ : Accounts).insert (text "ana") { password := text "pass" }
    let accounts := previous.insert (text "bob") { password := text "word" }
    let files := (save JsonLib.reference previous {} {}).1
    load JsonLib.reference files.target = .ok previous ∧
      ¬AtomicSave JsonLib.reference previous accounts { short := some 0 } files := by
  intro previous accounts files
  have htarget : (save JsonLib.reference accounts { short := some 0 } files).1.target =
      some [] := by decide +kernel
  refine ⟨by decide +kernel, fun hatomic ↦ ?_⟩
  obtain ⟨_, loaded, hload, _⟩ := hatomic
  have hempty : load JsonLib.reference (some []) = .error .parseError := by decide +kernel
  rw [htarget, hempty] at hload
  cases hload

/-! ## What a save does to the file -/

section Stages

variable (lib : JsonLib) (accounts : Accounts) (io : SaveIO) (files : Files)

@[simp]
theorem openTmp_target : (openTmp io files).target = files.target := by
  unfold openTmp
  split <;> rfl

@[simp]
theorem writeTmp_target (content : Bytes) :
    (writeTmp io content files).target = files.target := by
  unfold writeTmp
  split <;> rfl

theorem writeTmp_openTmp_tmp (content : Bytes) :
    (writeTmp io content (openTmp io files)).tmp =
      if io.opens then some (io.reaching content) else files.tmp := by
  unfold writeTmp openTmp
  split <;> rfl

theorem rename_target :
    (rename io files).1.target =
      if io.renames then files.tmp.or files.target else files.target := by
  unfold rename
  cases files.tmp with
  | none => simp
  | some content => cases io.renames <;> simp

/-- A save that stops early, or whose rename fails, does not touch the file. -/
theorem save_target_of_not_renamed
    (h : io.stop = some .start ∨ io.stop = some .opened ∨ io.stop = some .written ∨
      io.renames = false) :
    (save lib accounts io files).1.target = files.target := by
  unfold save
  split
  · rfl
  next hstart =>
  split
  · exact openTmp_target io files
  next hopened =>
  split
  · exact openTmp_target io files
  split
  · simp
  next hwritten =>
  have hfails : io.renames = false := by tauto
  simp [rename_target, hfails]

theorem save_target_of_error {exception : Exn}
    (h : serialization lib accounts = .error exception) :
    (save lib accounts io files).1.target = files.target := by
  simp only [save, h]
  split
  · rfl
  split
  · exact openTmp_target io files
  · exact openTmp_target io files

/-- Otherwise the file is replaced by what is in the `.tmp` file. -/
theorem save_target_of_renamed (hstart : io.stop ≠ some .start) (hopened : io.stop ≠ some .opened)
    (hwritten : io.stop ≠ some .written) (hrenames : io.renames = true) {content : Bytes}
    (hcontent : serialization lib accounts = .ok content) :
    (save lib accounts io files).1.target =
      if io.opens then some (io.reaching content) else files.tmp.or files.target := by
  simp only [save, if_neg hstart, if_neg hopened, if_neg hwritten, hcontent, rename_target,
    hrenames, if_true, writeTmp_openTmp_tmp, writeTmp_target, openTmp_target]
  cases io.opens <;> rfl

end Stages

/-! ## When a save is atomic -/

theorem atomicSave_of_target_eq {lib : JsonLib} {previous accounts : Accounts} {io : SaveIO}
    {files : Files} (hload : load lib files.target = .ok previous)
    (h : (save lib accounts io files).1.target = files.target) :
    AtomicSave lib previous accounts io files :=
  ⟨Or.inl h, previous, by rw [h, hload], Or.inl rfl⟩

theorem atomicSave_of_target_serialization {lib : JsonLib} (hlib : lib.Lawful)
    {previous accounts : Accounts} {io : SaveIO} {files : Files} {content : Bytes}
    (hcontent : serialization lib accounts = .ok content)
    (h : (save lib accounts io files).1.target = some content) :
    AtomicSave lib previous accounts io files := by
  have hvalid := valid_of_serialization hcontent
  refine ⟨Or.inr ⟨content, hcontent, h⟩, accounts, ?_, Or.inr rfl⟩
  rw [h, load_serialization hlib hvalid hcontent]

/-- A save of a store with a serialization is atomic exactly when the file keeps its text or gets
the serialization. -/
theorem atomicSave_iff_target {lib : JsonLib} (hlib : lib.Lawful) {previous accounts : Accounts}
    {io : SaveIO} {files : Files} (hload : load lib files.target = .ok previous) {content : Bytes}
    (hcontent : serialization lib accounts = .ok content) :
    AtomicSave lib previous accounts io files ↔
      (save lib accounts io files).1.target = files.target ∨
        (save lib accounts io files).1.target = some content := by
  constructor
  · rintro ⟨hsame | ⟨_, hcontent', hcomplete⟩, _⟩
    · exact Or.inl hsame
    · cases hcontent.symm.trans hcontent'
      exact Or.inr hcomplete
  · rintro (hsame | hcomplete)
    · exact atomicSave_of_target_eq hload hsame
    · exact atomicSave_of_target_serialization hlib hcontent hcomplete

/-- A save is atomic unless its rename puts an incomplete or outdated text in place of the file. -/
theorem atomicSave_iff_intact {lib : JsonLib} (hlib : lib.Lawful) {previous : Accounts}
    (accounts : Accounts) (io : SaveIO) {files : Files}
    (hload : load lib files.target = .ok previous) :
    AtomicSave lib previous accounts io files ↔ Intact lib accounts io files := by
  by_cases hnot : io.stop = some .start ∨ io.stop = some .opened ∨ io.stop = some .written ∨
      io.renames = false
  · have hsame := save_target_of_not_renamed lib accounts io files hnot
    exact iff_of_true (atomicSave_of_target_eq hload hsame) (by unfold Intact; tauto)
  have hintact : Intact lib accounts io files ↔
      ∀ content, serialization lib accounts = .ok content →
      if io.opens then io.reaching content = content ∨ files.target = some (io.reaching content)
      else ∀ stale, files.tmp = some stale → stale = content ∨ files.target = some stale := by
    unfold Intact
    tauto
  rw [hintact]
  simp only [not_or, Bool.not_eq_false] at hnot
  obtain ⟨hstart, hopened, hwritten, hrenames⟩ := hnot
  cases hserialization : serialization lib accounts with
  | error exception =>
    have hsame := save_target_of_error lib accounts io files hserialization
    exact iff_of_true (atomicSave_of_target_eq hload hsame) fun content hcontent ↦ by cases hcontent
  | ok content =>
    rw [atomicSave_iff_target hlib hload hserialization,
      save_target_of_renamed lib accounts io files hstart hopened hwritten hrenames hserialization]
    simp only [Except.ok.injEq, forall_eq']
    cases io.opens with
    | true =>
      rw [if_pos rfl, if_pos rfl, Option.some.injEq, or_comm]
      exact or_congr_right eq_comm
    | false =>
      simp only [Bool.false_eq_true, if_false]
      cases files.tmp with
      | none => exact iff_of_true (Or.inl (Option.none_or ..)) fun stale hstale ↦ by cases hstale
      | some stale =>
        simp only [Option.some_or, Option.some.injEq, forall_eq']
        rw [or_comm]
        exact or_congr_right eq_comm

/-- The disk is full and the rename fails while a second account is added. -/
theorem atomicSave_iff_intact_full :
    let previous : Accounts := (∅ : Accounts).insert (text "ana") { password := text "pass" }
    let accounts := previous.insert (text "bob") { password := text "word" }
    let files := (save JsonLib.reference previous {} {}).1
    AtomicSave JsonLib.reference previous accounts { short := some 0, renames := false } files := by
  intro previous accounts files
  have hload : load JsonLib.reference files.target = .ok previous := by decide +kernel
  have hintact : Intact JsonLib.reference accounts { short := some 0, renames := false } files :=
    Or.inr (Or.inr (Or.inr (Or.inl rfl)))
  exact (atomicSave_iff_intact JsonLib.reference_lawful accounts _ hload).mpr hintact

end NetPixeld.JsonDB
