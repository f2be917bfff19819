import NetPixeld.Server.AtomicSave

/-!
# Failing mutators

`addUser`, `updateResources` and `setCampLevel` change the accounts in memory and then save them. A
save can throw in `dump` and in the rename, and nothing takes the change back: memory is then ahead
of the file.
-/

namespace NetPixeld.JsonDB

/-- The calls that change the store. -/
inductive Mutator where
  | addUser (username password : Bytes) (draw : UInt64 × UInt64)
  | updateResources (order : List Bytes) (uuid : Bytes) (r : Resources)
  | setCampLevel (order : List Bytes) (uuid camp : Bytes) (level : Int32)

namespace Mutator

def perform (lib : JsonLib) (db : JsonDB) (io : SaveIO) : Mutator → JsonDB × Outcome Unit
  | addUser username password draw =>
      let added := db.addUser lib username password draw io
      (added.1, added.2.map fun _ ↦ ())
  | updateResources order uuid r => db.updateResources lib order uuid r io
  | setCampLevel order uuid camp level => db.setCampLevel lib order uuid camp level io

/-- The content that is saved, or nothing where the call throws first. -/
def attempt (db : JsonDB) : Mutator → Option Accounts
  | addUser username password draw =>
      if (db.accounts.find username).isSome then none
      else some (db.accounts.insert username { password := password, uuid := generateUuid draw })
  | updateResources order uuid r =>
      (scan db.accounts order uuid).map fun found ↦
        db.accounts.insert found.1 { found.2 with resources := r }
  | setCampLevel order uuid camp level =>
      (scan db.accounts order uuid).map fun found ↦
        db.accounts.insert found.1
          { found.2 with campLevels := found.2.campLevels.insert camp level }

end Mutator

/-- A call that throws leaves the accounts and the file as they were. -/
def AllOrNothing (lib : JsonLib) (db : JsonDB) (io : SaveIO) (call : Mutator) : Prop :=
  ∀ exception, (call.perform lib db io).2 = .threw exception →
    (call.perform lib db io).1.accounts = db.accounts ∧
      (call.perform lib db io).1.files.target = db.files.target

/-! ## When a call cannot leave half a change -/

namespace Mutator

/-- The call throws before it changes anything: the user exists, or no account has the uuid. -/
def Misses (db : JsonDB) : Mutator → Prop
  | addUser username _ _ => db.accounts.find username ≠ none
  | updateResources order uuid _ | setCampLevel order uuid _ _ =>
      scan db.accounts order uuid = none

/-- The call writes what is already there. -/
def Idle (db : JsonDB) : Mutator → Prop
  | addUser _ _ _ => False
  | updateResources order uuid r =>
      ∃ user acc, scan db.accounts order uuid = some (user, acc) ∧ acc.resources = r
  | setCampLevel order uuid camp level =>
      ∃ user acc, scan db.accounts order uuid = some (user, acc) ∧
        acc.campLevels.find camp = some level

/-- The texts among the arguments that are stored are UTF-8. -/
def Texts : Mutator → Prop
  | addUser username password _ => Utf8.Valid username ∧ Utf8.Valid password
  | updateResources _ _ _ => True
  | setCampLevel _ _ camp _ => Utf8.Valid camp

/-- The save behind the call does not throw: the process stops first, or every text is UTF-8 and the
rename has a file to move and succeeds. -/
def Saves (db : JsonDB) (io : SaveIO) (call : Mutator) : Prop :=
  io.stop = some .start ∨ io.stop = some .opened ∨
    (Valid db.accounts ∧ call.Texts) ∧
      (io.stop = some .written ∨ io.renames = true ∧ (io.opens = true ∨ db.files.tmp ≠ none))

end Mutator

/-! ## Saves that throw -/

theorem rename_threw_iff (io : SaveIO) (files : Files) :
    (∃ exception, (rename io files).2 = .threw exception) ↔
      ¬(io.renames = true ∧ files.tmp ≠ none) := by
  unfold rename
  cases files.tmp with
  | none => simp
  | some content =>
    cases io.renames with
    | false => simp
    | true =>
      simp only [if_true]
      split <;> simp

/-- A save throws when a text is not UTF-8 or the rename fails, unless the process stops first. -/
theorem save_threw_iff (lib : JsonLib) (accounts : Accounts) (io : SaveIO) (files : Files) :
    (∃ exception, (save lib accounts io files).2 = .threw exception) ↔
      ¬(io.stop = some .start ∨ io.stop = some .opened ∨
        Valid accounts ∧
          (io.stop = some .written ∨
            io.renames = true ∧ (io.opens = true ∨ files.tmp ≠ none))) := by
  unfold save
  by_cases hstart : io.stop = some .start
  · simp [hstart]
  by_cases hopened : io.stop = some .opened
  · simp [hopened]
  simp only [hstart, hopened, if_false, false_or]
  cases hserialization : serialization lib accounts with
  | error exception =>
    have hinvalid : ¬Valid accounts := by
      intro hvalid
      obtain ⟨content, hcontent⟩ := serialization_ok lib hvalid
      cases hserialization.symm.trans hcontent
    simp [hinvalid]
  | ok content =>
    have hvalid := valid_of_serialization hserialization
    by_cases hwritten : io.stop = some .written
    · simp [hwritten, hvalid]
    · have htmp : (writeTmp io content (openTmp io files)).tmp ≠ none ↔
          io.opens = true ∨ files.tmp ≠ none := by
        unfold writeTmp openTmp
        cases io.opens <;> simp
      simp only [hwritten, if_false, false_or, hvalid, true_and]
      rw [rename_threw_iff, htmp]

/-- A save that throws has not touched the file. -/
theorem save_target_of_threw {lib : JsonLib} {accounts : Accounts} {io : SaveIO} {files : Files}
    {exception : Exn} (h : (save lib accounts io files).2 = .threw exception) :
    (save lib accounts io files).1.target = files.target := by
  by_cases hnot : io.stop = some .start ∨ io.stop = some .opened ∨ io.stop = some .written ∨
      io.renames = false
  · exact save_target_of_not_renamed lib accounts io files hnot
  simp only [not_or, Bool.not_eq_false] at hnot
  obtain ⟨hstart, hopened, hwritten, hrenames⟩ := hnot
  cases hserialization : serialization lib accounts with
  | error exception => exact save_target_of_error lib accounts io files hserialization
  | ok content =>
    have hvalid := valid_of_serialization hserialization
    have hthrew := (save_threw_iff lib accounts io files).mp ⟨exception, h⟩
    rw [save_target_of_renamed lib accounts io files hstart hopened hwritten hrenames
      hserialization]
    have hmissing : ¬(io.opens = true ∨ files.tmp ≠ none) := fun hready ↦
      hthrew (Or.inr (Or.inr ⟨hvalid, Or.inr ⟨hrenames, hready⟩⟩))
    simp only [not_or, not_not] at hmissing
    simp [hmissing]

/-! ## The texts of a changed store -/

theorem accountValid_of_change {username : Bytes} {before after : Account}
    (h : AccountValid username after) (hpassword : after.password = before.password)
    (huuid : after.uuid = before.uuid)
    (hcamps : ∀ camp, before.campLevels.find camp ≠ none → after.campLevels.find camp ≠ none) :
    AccountValid username before := by
  refine ⟨h.username, hpassword ▸ h.password, huuid ▸ h.uuid, fun camp level hfind ↦ ?_⟩
  obtain ⟨level', hfind'⟩ := Option.ne_none_iff_exists'.mp
    (hcamps camp (by rw [hfind]; exact Option.some_ne_none level))
  exact h.camps camp level' hfind'

/-- Writing an account leaves a store of valid texts exactly when the other accounts and the written
one have valid texts. -/
theorem valid_insert_iff {accounts : Accounts} {username : Bytes} {written : Account}
    (h : ∀ acc, accounts.find username = some acc → AccountValid username written →
      AccountValid username acc) :
    Valid (accounts.insert username written) ↔
      Valid accounts ∧ AccountValid username written := by
  constructor
  · intro hvalid
    have hwritten := hvalid username written (SortedMap.find_insert_self ..)
    refine ⟨fun other acc hfind ↦ ?_, hwritten⟩
    by_cases hother : username = other
    · subst hother
      exact h acc hfind hwritten
    · exact hvalid other acc (by rw [SortedMap.find_insert_of_ne _ hother, hfind])
  · rintro ⟨hvalid, hwritten⟩
    exact valid_insert hvalid hwritten

namespace Mutator

/-- A call that saves makes a store of valid texts exactly from one and with valid arguments. -/
theorem attempt_valid_iff {db : JsonDB} {call : Mutator} {accounts : Accounts}
    (h : call.attempt db = some accounts) :
    Valid accounts ↔ Valid db.accounts ∧ call.Texts := by
  cases call with
  | addUser username password draw =>
    simp only [attempt] at h
    split at h
    · cases h
    next hfree =>
    cases h
    rw [Option.not_isSome_iff_eq_none] at hfree
    rw [valid_insert_iff fun acc hacc ↦ by cases hfree.symm.trans hacc]
    refine and_congr_right fun _ ↦ ⟨fun hacc ↦ ⟨hacc.username, hacc.password⟩, fun htexts ↦ ?_⟩
    exact ⟨htexts.1, htexts.2, generateUuid_valid draw, fun camp level hcamp ↦ by cases hcamp⟩
  | updateResources order uuid r =>
    obtain ⟨⟨user, acc⟩, hscan, rfl⟩ := Option.map_eq_some_iff.mp h
    have hfind := (scan_eq_some hscan).1
    rw [valid_insert_iff fun old hold hwritten ↦ ?_, Texts, and_true]
    · refine and_iff_left_of_imp fun hvalid ↦ ?_
      have hacc := hvalid user acc hfind
      exact ⟨hacc.username, hacc.password, hacc.uuid, hacc.camps⟩
    · cases hfind.symm.trans hold
      exact accountValid_of_change hwritten rfl rfl fun _ hcamp ↦ hcamp
  | setCampLevel order uuid camp level =>
    obtain ⟨⟨user, acc⟩, hscan, rfl⟩ := Option.map_eq_some_iff.mp h
    have hfind := (scan_eq_some hscan).1
    rw [valid_insert_iff fun old hold hwritten ↦ ?_, Texts]
    · refine and_congr_right fun hvalid ↦ ?_
      have hacc := hvalid user acc hfind
      constructor
      · intro hwritten
        exact hwritten.camps camp level (SortedMap.find_insert_self ..)
      · intro hcamp
        refine ⟨hacc.username, hacc.password, hacc.uuid, fun other level' hother ↦ ?_⟩
        rw [SortedMap.find_insert] at hother
        split at hother
        · next heq => exact heq ▸ hcamp
        · exact hacc.camps other level' hother
    · cases hfind.symm.trans hold
      refine accountValid_of_change hwritten rfl rfl fun other hother ↦ ?_
      rw [SortedMap.find_insert]
      split
      · exact Option.some_ne_none level
      · exact hother

/-! ## What a call does -/

/-- A call throws before it changes anything, or commits its attempt. -/
theorem perform_spec (lib : JsonLib) (db : JsonDB) (io : SaveIO) (call : Mutator) :
    (call.attempt db = none ∧ (call.perform lib db io).1 = db) ∨
    ∃ accounts, call.attempt db = some accounts ∧
      (call.perform lib db io).1 = (commit lib db accounts io).1 ∧
      ∀ exception, (call.perform lib db io).2 = .threw exception ↔
        (save lib accounts io db.files).2 = .threw exception := by
  cases call with
  | addUser username password draw =>
    simp only [attempt, perform, JsonDB.addUser]
    cases hfind : db.accounts.find username with
    | some acc => exact Or.inl ⟨rfl, rfl⟩
    | none =>
      refine Or.inr ⟨_, rfl, rfl, fun exception ↦ ?_⟩
      simp only [Option.isSome_none, Bool.false_eq_true, if_false, commit]
      cases (save lib _ io db.files).2 <;> simp [Outcome.map]
  | updateResources order uuid r =>
    simp only [attempt, perform, JsonDB.updateResources, modifyAccount]
    cases scan db.accounts order uuid with
    | none => exact Or.inl ⟨rfl, rfl⟩
    | some found => exact Or.inr ⟨_, rfl, rfl, fun _ ↦ Iff.rfl⟩
  | setCampLevel order uuid camp level =>
    simp only [attempt, perform, JsonDB.setCampLevel, modifyAccount]
    cases scan db.accounts order uuid with
    | none => exact Or.inl ⟨rfl, rfl⟩
    | some found => exact Or.inr ⟨_, rfl, rfl, fun _ ↦ Iff.rfl⟩

theorem attempt_eq_none_iff {db : JsonDB} {call : Mutator} :
    call.attempt db = none ↔ call.Misses db := by
  cases call with
  | addUser username password draw =>
    simp only [attempt, Misses]
    cases db.accounts.find username <;> simp
  | updateResources order uuid r | setCampLevel order uuid camp level =>
    exact Option.map_eq_none_iff

/-- A call that writes what is there attempts the same content, and no other call does. -/
theorem attempt_self_iff {db : JsonDB} {call : Mutator} :
    call.attempt db = some db.accounts ↔ call.Idle db := by
  have hsame : ∀ (order : List Bytes) (uuid : Bytes) (change : Account → Account)
      (unchanged : Account → Prop), (∀ acc, change acc = acc ↔ unchanged acc) →
      ((scan db.accounts order uuid).map (fun found ↦
        db.accounts.insert found.1 (change found.2)) = some db.accounts ↔
        ∃ user acc, scan db.accounts order uuid = some (user, acc) ∧ unchanged acc) := by
    intro order uuid change unchanged hchange
    rw [Option.map_eq_some_iff]
    constructor
    · rintro ⟨⟨user, acc⟩, hscan, hinsert⟩
      have hfind := SortedMap.insert_eq_self_iff.mp hinsert
      rw [(scan_eq_some hscan).1] at hfind
      exact ⟨user, acc, hscan, (hchange acc).mp (Option.some.inj hfind).symm⟩
    · rintro ⟨user, acc, hscan, hunchanged⟩
      refine ⟨(user, acc), hscan, SortedMap.insert_eq_self_iff.mpr ?_⟩
      rw [(scan_eq_some hscan).1, (hchange acc).mpr hunchanged]
  cases call with
  | addUser username password draw =>
    simp only [attempt, Idle, iff_false]
    cases hfind : db.accounts.find username with
    | some acc => simp
    | none =>
      intro h
      have hinsert := SortedMap.insert_eq_self_iff.mp (Option.some.inj h)
      cases hfind.symm.trans hinsert
  | updateResources order uuid r =>
    refine hsame order uuid (fun acc ↦ { acc with resources := r })
      (fun acc ↦ acc.resources = r) fun acc ↦ ?_
    constructor
    · intro h
      exact (congrArg Account.resources h).symm
    · rintro rfl
      rfl
  | setCampLevel order uuid camp level =>
    refine hsame order uuid
      (fun acc ↦ { acc with campLevels := acc.campLevels.insert camp level })
      (fun acc ↦ acc.campLevels.find camp = some level) fun acc ↦ ?_
    rw [← SortedMap.insert_eq_self_iff]
    constructor
    · intro h
      exact congrArg Account.campLevels h
    · intro h
      cases acc
      simp only at h ⊢
      rw [h]

end Mutator

/-! ## When a failing call changes nothing -/

/-- A call is all or nothing exactly when it throws before it changes anything, writes what is there
already, or has a save that does not throw. -/
theorem allOrNothing_iff (lib : JsonLib) (db : JsonDB) (io : SaveIO) (call : Mutator) :
    AllOrNothing lib db io call ↔ call.Misses db ∨ call.Idle db ∨ call.Saves db io := by
  rw [← Mutator.attempt_eq_none_iff, ← Mutator.attempt_self_iff]
  rcases call.perform_spec lib db io with
    ⟨hnone, hdb⟩ | ⟨accounts, hattempt, hdb, houtcome⟩
  · refine iff_of_true (fun _ _ ↦ ?_) (Or.inl hnone)
    rw [hdb]
    exact ⟨rfl, rfl⟩
  have hsaves : call.Saves db io ↔
      ¬∃ exception, (save lib accounts io db.files).2 = .threw exception := by
    rw [save_threw_iff, not_not, Mutator.Saves, call.attempt_valid_iff hattempt]
  rw [hsaves, hattempt, Option.some.injEq]
  simp only [reduceCtorEq, false_or]
  constructor
  · intro h
    by_cases hthrew : ∃ exception, (save lib accounts io db.files).2 = .threw exception
    · obtain ⟨exception, hexception⟩ := hthrew
      have hsame := (h exception ((houtcome exception).mpr hexception)).1
      rw [hdb] at hsame
      exact Or.inl hsame
    · exact Or.inr hthrew
  · rintro (hsame | hsaved) exception hexception
    · rw [hdb]
      exact ⟨hsame, save_target_of_threw ((houtcome exception).mp hexception)⟩
    · exact absurd ⟨exception, (houtcome exception).mp hexception⟩ hsaved

/-- A username that is not UTF-8: the call throws, the account is in memory, and the next call, for
a valid name, throws too. -/
theorem not_allOrNothing_invalid_text :
    let broken := Mutator.addUser [0xFF] (text "pass") (1, 2)
    let after := (broken.perform JsonLib.reference {} {}).1
    ¬AllOrNothing JsonLib.reference {} {} broken ∧
      ((Mutator.addUser (text "ana") (text "pass") (3, 4)).perform JsonLib.reference after {}).2 =
        .threw (.typeError 316) := by
  intro broken after
  refine ⟨fun h ↦ ?_, by decide +kernel⟩
  have hthrew : (broken.perform JsonLib.reference {} {}).2 = .threw (.typeError 316) := by
    decide +kernel
  have hsame := (h _ hthrew).1
  exact absurd hsame (by decide +kernel)

end NetPixeld.JsonDB
