import NetPixeld.Json.Reference
import NetPixeld.Server.Mutators
import NetPixeld.Server.Persistence

/-!
# The store by uuid

The accounts are kept by username and used by uuid, through a search for the first match over an
unordered map. That search is a lookup as long as no two accounts share a uuid, which every
operation and every restart keeps, whatever happens to the files: a file holds a complete content,
a truncated text that cannot be loaded, or nothing.
-/

namespace NetPixeld

/-- What the store keeps for the owner of a uuid. -/
structure Record where
  resources : Resources
  campLevels : SortedMap Bytes Int32

def Account.record (acc : Account) : Record := ⟨acc.resources, acc.campLevels⟩

namespace JsonDB

/-! ## Records by uuid -/

/-- The store as its callers by uuid see it. -/
abbrev Records := Bytes → Option Record

namespace Records

def read {α : Type} (records : Records) (uuid : Bytes) (get : Record → α) : Except Exn α :=
  match records uuid with
  | some record => .ok (get record)
  | none => .error (uuidNotFound uuid)

def write (records : Records) (uuid : Bytes) (change : Record → Record) : Records :=
  Function.update records uuid ((records uuid).map change)

end Records

/-- The first record found under each uuid, in the order of the usernames. -/
def records (accounts : Accounts) : Records :=
  fun uuid ↦ (scan accounts accounts.keys uuid).map fun found ↦ found.2.record

/-- The getters read the records, whatever the iteration order. -/
def Reads (db : JsonDB) : Prop :=
  ∀ order, order.Perm db.accounts.keys → ∀ uuid camp,
    db.getResources order uuid = (records db.accounts).read uuid Record.resources ∧
    db.getCampLevels order uuid = (records db.accounts).read uuid Record.campLevels ∧
    db.getCampLevel order uuid camp =
      (records db.accounts).read uuid fun record ↦ (record.campLevels.find camp).getD 0

/-- A setter changes one record and nothing else, or throws because there is none. -/
structure Writes (lib : JsonLib) (db : JsonDB) (io : SaveIO) (uuid : Bytes)
    (change : Record → Record) (result : JsonDB × Outcome Unit) : Prop where
  missing : records db.accounts uuid = none → result = (db, .threw (uuidNotFound uuid))
  present : records db.accounts uuid ≠ none →
    result.2 = (save lib result.1.accounts io db.files).2
  content : records result.1.accounts = (records db.accounts).write uuid change
  owners : ∀ username, (result.1.accounts.find username).map (fun acc ↦ (acc.password, acc.uuid)) =
    (db.accounts.find username).map fun acc ↦ (acc.password, acc.uuid)
  reads : Reads result.1

/-- No two accounts share a uuid. -/
def Distinct (accounts : Accounts) : Prop :=
  ∀ user other acc acc', accounts.find user = some acc → accounts.find other = some acc' →
    acc.uuid = acc'.uuid → user = other

instance (accounts : Accounts) : Decidable (Distinct accounts) :=
  decidable_of_iff (∀ entry ∈ accounts.items, ∀ other ∈ accounts.items,
      entry.2.uuid = other.2.uuid → entry.1 = other.1) (by
    constructor
    · intro h user other acc acc' hfind hother huuid
      exact h (user, acc) (SortedMap.find_eq_some_iff.mp hfind) (other, acc')
        (SortedMap.find_eq_some_iff.mp hother) huuid
    · intro h entry hentry other hother huuid
      exact h entry.1 other.1 entry.2 other.2 (SortedMap.find_eq_some_iff.mpr hentry)
        (SortedMap.find_eq_some_iff.mpr hother) huuid)

/-- The store is a map from uuids to records. -/
structure KeyedByUuid (lib : JsonLib) (db : JsonDB) : Prop where
  distinct : Distinct db.accounts
  holds : ∀ uuid record, records db.accounts uuid = some record ↔
    ∃ username acc, db.accounts.find username = some acc ∧ acc.uuid = uuid ∧ acc.record = record
  reads : Reads db
  updates : ∀ order, order.Perm db.accounts.keys → ∀ uuid r io,
    Writes lib db io uuid (fun record ↦ { record with resources := r })
      (db.updateResources lib order uuid r io)
  sets : ∀ order, order.Perm db.accounts.keys → ∀ uuid camp level io,
    Writes lib db io uuid
      (fun record ↦ { record with campLevels := record.campLevels.insert camp level })
      (db.setCampLevel lib order uuid camp level io)

/-! ## Histories of a store -/

/-- The numbers a call draws. -/
def Mutator.draws (db : JsonDB) : Mutator → List (UInt64 × UInt64)
  | .addUser username _ draw => if (db.accounts.find username).isSome then [] else [draw]
  | .updateResources .. | .setCampLevel .. => []

/-- A changing call with the outcomes of its file operations, or a new process on the same files.
The calls that only read change nothing. -/
inductive Operation where
  | mutate (call : Mutator) (io : SaveIO)
  | restart

/-- A store and the numbers drawn for it since the first start. -/
structure History where
  db : JsonDB
  drawn : List (UInt64 × UInt64) := []

namespace History

/-- A new process, if the file can be loaded. -/
def restart (lib : JsonLib) (files : Files) (drawn : List (UInt64 × UInt64)) : Option History :=
  match JsonDB.new lib files with
  | .ok db => some ⟨db, drawn⟩
  | .error _ => none

/-- One operation. A process that dies inside a call is started again. -/
def step (lib : JsonLib) (history : History) : Operation → Option History
  | .mutate call io =>
      let result := call.perform lib history.db io
      let drawn := history.drawn ++ call.draws history.db
      if result.2 = .died then restart lib result.1.files drawn else some ⟨result.1, drawn⟩
  | .restart => restart lib history.db.files history.drawn

end History

/-- The uuids of the accounts. -/
def HasUuid (accounts : Accounts) (uuid : Bytes) : Prop :=
  ∃ username acc, accounts.find username = some acc ∧ acc.uuid = uuid

instance (accounts : Accounts) (uuid : Bytes) : Decidable (HasUuid accounts uuid) :=
  decidable_of_iff (∃ entry ∈ accounts.items, entry.2.uuid = uuid) (by
    constructor
    · rintro ⟨⟨username, acc⟩, hmem, huuid⟩
      exact ⟨username, acc, SortedMap.find_eq_some_iff.mpr hmem, huuid⟩
    · rintro ⟨username, acc, hfind, huuid⟩
      exact ⟨(username, acc), SortedMap.find_eq_some_iff.mp hfind, huuid⟩)

/-- The drawn numbers never repeat, and none gives a uuid that was there before. -/
def Fresh (initial : Bytes → Prop) (drawn : List (UInt64 × UInt64)) : Prop :=
  drawn.Nodup ∧ ∀ draw ∈ drawn, ¬initial (generateUuid draw)

/-! ## Lookup -/

theorem mem_of_perm {accounts : Accounts} {order : List Bytes}
    (horder : order.Perm accounts.keys) {username : Bytes} {acc : Account}
    (hfind : accounts.find username = some acc) : username ∈ order := by
  rw [horder.mem_iff, SortedMap.mem_keys, hfind]
  exact Option.some_ne_none acc

section Lookup

variable {accounts : Accounts} (hdistinct : Distinct accounts)
include hdistinct

/-- The search finds the account with the uuid wherever its username stands. -/
theorem scan_of_find {order : List Bytes} {username : Bytes} {acc : Account}
    (hmem : username ∈ order) (hfind : accounts.find username = some acc) :
    scan accounts order acc.uuid = some (username, acc) := by
  have hlookup := scan_eq_lookup ⟨accounts, {}⟩ order acc.uuid
  exact hlookup.trans (Memory.lookup_of_find hdistinct hmem hfind)

theorem scan_eq_some_iff {order : List Bytes} (horder : order.Perm accounts.keys)
    {uuid username : Bytes} {acc : Account} :
    scan accounts order uuid = some (username, acc) ↔
      accounts.find username = some acc ∧ acc.uuid = uuid := by
  constructor
  · exact scan_eq_some
  · rintro ⟨hfind, rfl⟩
    exact scan_of_find hdistinct (mem_of_perm horder hfind) hfind

theorem scan_perm {order order' : List Bytes} (horder : order.Perm accounts.keys)
    (horder' : order'.Perm accounts.keys) (uuid : Bytes) :
    scan accounts order uuid = scan accounts order' uuid := by
  refine Option.ext fun ⟨username, acc⟩ ↦ ?_
  rw [scan_eq_some_iff hdistinct horder, scan_eq_some_iff hdistinct horder']

theorem records_eq_some_iff {uuid : Bytes} {record : Record} :
    records accounts uuid = some record ↔
      ∃ username acc, accounts.find username = some acc ∧ acc.uuid = uuid ∧
        acc.record = record := by
  rw [records, Option.map_eq_some_iff]
  constructor
  · rintro ⟨⟨username, acc⟩, hscan, hrecord⟩
    obtain ⟨hfind, huuid⟩ := scan_eq_some hscan
    exact ⟨username, acc, hfind, huuid, hrecord⟩
  · rintro ⟨username, acc, hfind, rfl, hrecord⟩
    have hmem := mem_of_perm (List.Perm.refl _) hfind
    exact ⟨(username, acc), scan_of_find hdistinct hmem hfind, hrecord⟩

end Lookup

theorem readAccount_of_distinct {α : Type} {db : JsonDB} (hdistinct : Distinct db.accounts)
    {order : List Bytes} (horder : order.Perm db.accounts.keys) (uuid : Bytes)
    (get : Record → α) :
    db.readAccount order uuid (fun acc ↦ get acc.record) =
      (records db.accounts).read uuid get := by
  rw [readAccount, scan_perm hdistinct horder (List.Perm.refl _), Records.read, records]
  cases scan db.accounts db.accounts.keys uuid <;> rfl

theorem reads_of_distinct {db : JsonDB} (hdistinct : Distinct db.accounts) : Reads db := by
  intro order horder uuid camp
  have hlevels : db.getCampLevels order uuid =
      (records db.accounts).read uuid Record.campLevels :=
    readAccount_of_distinct hdistinct horder uuid Record.campLevels
  refine ⟨readAccount_of_distinct hdistinct horder uuid Record.resources, hlevels, ?_⟩
  rw [getCampLevel, hlevels, Records.read, Records.read]
  cases records db.accounts uuid with
  | none => rfl
  | some record =>
    simp only [bind, Except.bind]
    cases record.campLevels.find camp <;> rfl

/-! ## One change -/

section Change

variable {accounts : Accounts} {username : Bytes} {acc : Account}

theorem distinct_insert {written : Account} (hdistinct : Distinct accounts)
    (hwritten : ∀ other found, accounts.find other = some found → found.uuid = written.uuid →
      other = username) : Distinct (accounts.insert username written) := by
  have hinsert : (accounts.insert username written).find =
      Function.update accounts.find username (some written) := memory_insert accounts {} ..
  have hupdated := Memory.distinct_update hdistinct hwritten
  rw [← hinsert] at hupdated
  exact hupdated

/-- Changing an account without its uuid keeps the uuids distinct. -/
theorem distinct_insert_of_find {written : Account} (hdistinct : Distinct accounts)
    (hfind : accounts.find username = some acc) (huuid : written.uuid = acc.uuid) :
    Distinct (accounts.insert username written) :=
  distinct_insert hdistinct fun other found hfound hsame ↦
    hdistinct other username found acc hfound hfind (hsame.trans huuid)

/-- An account with a uuid of its own keeps the uuids distinct. -/
theorem distinct_insert_of_fresh {written : Account} (hdistinct : Distinct accounts)
    (hfresh : ∀ other found, accounts.find other = some found → found.uuid ≠ written.uuid) :
    Distinct (accounts.insert username written) :=
  distinct_insert hdistinct fun other found hfound hsame ↦ absurd hsame (hfresh other found hfound)

theorem records_insert {written : Account} (hdistinct : Distinct accounts)
    (hfind : accounts.find username = some acc) (huuid : written.uuid = acc.uuid) :
    records (accounts.insert username written) =
      Function.update (records accounts) acc.uuid (some written.record) := by
  have hafter := distinct_insert_of_find hdistinct hfind huuid
  refine funext fun uuid ↦ Option.ext fun record ↦ ?_
  rw [records_eq_some_iff hafter]
  by_cases hother : uuid = acc.uuid
  · subst hother
    rw [Function.update_self, Option.some.injEq]
    constructor
    · rintro ⟨other, found, hfound, hsame, rfl⟩
      have hwritten := SortedMap.find_insert_self accounts username written
      cases hafter other username found written hfound hwritten (hsame.trans huuid.symm)
      cases hfound.symm.trans hwritten
      rfl
    · rintro rfl
      exact ⟨username, written, SortedMap.find_insert_self .., huuid, rfl⟩
  · rw [Function.update_of_ne hother, records_eq_some_iff hdistinct]
    refine exists_congr fun other ↦ exists_congr fun found ↦ and_congr_left ?_
    rintro ⟨rfl, _⟩
    rw [SortedMap.find_insert]
    split
    · next heq =>
      subst heq
      constructor
      · rintro ⟨⟩
        exact absurd huuid hother
      · intro hfound
        cases hfind.symm.trans hfound
        exact absurd rfl hother
    · exact Iff.rfl

end Change

theorem writes_of_distinct (lib : JsonLib) {db : JsonDB} (hdistinct : Distinct db.accounts)
    {order : List Bytes} (horder : order.Perm db.accounts.keys) (uuid : Bytes) (io : SaveIO)
    {change : Account → Account} {change' : Record → Record}
    (hrecord : ∀ acc, (change acc).record = change' acc.record)
    (howner : ∀ acc, (change acc).password = acc.password ∧ (change acc).uuid = acc.uuid) :
    Writes lib db io uuid change' (modifyAccount lib db order uuid change io) := by
  have hscan := scan_perm hdistinct horder (List.Perm.refl _) uuid
  rw [modifyAccount, hscan]
  cases hfound : scan db.accounts db.accounts.keys uuid with
  | none =>
    have hnone : records db.accounts uuid = none := by rw [records, hfound]; rfl
    refine ⟨fun _ ↦ rfl, fun h ↦ absurd hnone h, ?_, fun _ ↦ rfl, reads_of_distinct hdistinct⟩
    rw [Records.write, hnone]
    exact (Function.update_eq_self_iff.mpr hnone.symm).symm
  | some found =>
    obtain ⟨username, acc⟩ := found
    obtain ⟨hfind, rfl⟩ := scan_eq_some hfound
    have hsome : records db.accounts acc.uuid = some acc.record := by rw [records, hfound]; rfl
    refine ⟨fun h ↦ ?_, fun _ ↦ rfl, ?_, fun other ↦ ?_, ?_⟩
    · cases hsome.symm.trans h
    · rw [Records.write, hsome, Option.map_some, ← hrecord]
      exact records_insert hdistinct hfind (howner acc).2
    · simp only [commit, SortedMap.find_insert]
      split
      · next heq =>
        rw [← heq, hfind, Option.map_some, Option.map_some, (howner acc).1, (howner acc).2]
      · rfl
    · exact reads_of_distinct (distinct_insert_of_find hdistinct hfind (howner acc).2)

theorem keyedByUuid_of_distinct (lib : JsonLib) {db : JsonDB} (hdistinct : Distinct db.accounts) :
    KeyedByUuid lib db where
  distinct := hdistinct
  holds _ _ := records_eq_some_iff hdistinct
  reads := reads_of_distinct hdistinct
  updates _ horder uuid _ io :=
    writes_of_distinct lib hdistinct horder uuid io (fun _ ↦ rfl) fun _ ↦ ⟨rfl, rfl⟩
  sets _ horder uuid _ _ io :=
    writes_of_distinct lib hdistinct horder uuid io (fun _ ↦ rfl) fun _ ↦ ⟨rfl, rfl⟩

/-! ## The uuids in the files -/

/-- The uuids of a store are distinct and among the known ones. -/
structure Owned (known : Bytes → Prop) (accounts : Accounts) : Prop where
  distinct : Distinct accounts
  known : ∀ username acc, accounts.find username = some acc → known acc.uuid

/-- Whatever store can be loaded from a file has distinct and known uuids. -/
def Sound (lib : JsonLib) (known : Bytes → Prop) (content : Option Bytes) : Prop :=
  ∀ accounts, load lib content = .ok accounts → Owned known accounts

theorem owned_empty (known : Bytes → Prop) : Owned known ∅ := by
  constructor
  · intro user other acc acc' hfind
    cases hfind
  · intro username acc hfind
    cases hfind

theorem Owned.mono {known known' : Bytes → Prop} (hknown : ∀ uuid, known uuid → known' uuid)
    {accounts : Accounts} (h : Owned known accounts) : Owned known' accounts :=
  ⟨h.distinct, fun username acc hfind ↦ hknown _ (h.known username acc hfind)⟩

theorem Sound.mono {lib : JsonLib} {known known' : Bytes → Prop}
    (hknown : ∀ uuid, known uuid → known' uuid) {content : Option Bytes}
    (h : Sound lib known content) : Sound lib known' content :=
  fun accounts hload ↦ (h accounts hload).mono hknown

theorem sound_none (lib : JsonLib) (known : Bytes → Prop) : Sound lib known none := by
  rintro accounts ⟨⟩
  exact owned_empty known

/-- A beginning of a complete content is that content or cannot be loaded. -/
theorem sound_take {lib : JsonLib} (hwhole : lib.Whole) {known : Bytes → Prop}
    {accounts : Accounts} (howned : Owned known accounts) {content : Bytes}
    (hcontent : serialization lib accounts = .ok content) (length : ℕ) :
    Sound lib known (some (content.take length)) := by
  intro loaded hload
  obtain ⟨dumped, hdumped, rfl⟩ := map_eq_ok.mp hcontent
  obtain ⟨top, htop, hload⟩ := bind_eq_ok.mp hload
  have hwellFormed := wellFormed_document (valid_of_serialization hcontent)
  rw [hwhole length hwellFormed hdumped htop] at hload
  have hdocument : loadAccounts (document accounts) = .ok loaded := hload
  cases (loadAccounts_document accounts).symm.trans hdocument
  exact howned

/-- A file that was only created cannot be loaded. -/
theorem sound_created {lib : JsonLib} (hwhole : lib.Whole) (known : Bytes → Prop) :
    Sound lib known (some []) := by
  obtain ⟨content, hcontent⟩ := serialization_ok lib valid_empty
  exact sound_take hwhole (owned_empty known) hcontent 0

theorem reaching_eq_take (io : SaveIO) (content : Bytes) :
    ∃ length, io.reaching content = content.take length := by
  unfold SaveIO.reaching
  cases io.short with
  | none => exact ⟨content.length, (List.take_length ..).symm⟩
  | some length => exact ⟨length, rfl⟩

/-- A property of both files that the empty file, a missing file and every beginning of the saved
text have is a property of both files after the save. -/
theorem save_files_property (lib : JsonLib) {accounts : Accounts} {files : Files}
    (property : Option Bytes → Prop) (hnone : property none) (hcreated : property (some []))
    (htake : ∀ content length, serialization lib accounts = .ok content →
      property (some (content.take length)))
    (htarget : property files.target) (htmp : property files.tmp) (io : SaveIO) :
    property (save lib accounts io files).1.target ∧
      property (save lib accounts io files).1.tmp := by
  have hopened : property (openTmp io files).target ∧ property (openTmp io files).tmp := by
    unfold openTmp
    split
    · exact ⟨htarget, hcreated⟩
    · exact ⟨htarget, htmp⟩
  unfold save
  split
  · exact ⟨htarget, htmp⟩
  split
  · exact hopened
  split
  · exact hopened
  next content hcontent =>
  have hwritten : property (writeTmp io content (openTmp io files)).target ∧
      property (writeTmp io content (openTmp io files)).tmp := by
    unfold writeTmp
    split
    · obtain ⟨length, hlength⟩ := reaching_eq_take io content
      exact ⟨hopened.1, hlength ▸ htake content length hcontent⟩
    · exact hopened
  split
  · exact hwritten
  unfold rename
  split
  · exact hwritten
  next moved hmoved =>
  split
  · exact ⟨hmoved ▸ hwritten.2, hnone⟩
  · exact hwritten

/-! ## Uuids over a history -/

/-- The distinct texts of distinct draws. -/
theorem generateUuid_injective : Function.Injective generateUuid := by
  intro draw draw' h
  have hlength : (hex16 draw.1).length = (hex16 draw'.1).length := by
    rw [hex16_length, hex16_length]
  obtain ⟨hfirst, hsecond⟩ := List.append_inj h hlength
  exact Prod.ext (hex16_injective hfirst) (hex16_injective hsecond)

theorem generateUuid_format (draw : UInt64 × UInt64) :
    (generateUuid draw).length = 32 ∧
      ∀ byte ∈ generateUuid draw, byte ∈ text "0123456789abcdef" := by
  constructor
  · rw [generateUuid, List.length_append, hex16_length, hex16_length]
  · intro byte hbyte
    rcases List.mem_append.mp hbyte with hbyte | hbyte
    · exact hex16_digits hbyte
    · exact hex16_digits hbyte

/-- The uuids that were there and the generated ones. -/
def Known (initial : Bytes → Prop) (drawn : List (UInt64 × UInt64)) (uuid : Bytes) : Prop :=
  initial uuid ∨ ∃ draw ∈ drawn, generateUuid draw = uuid

theorem Known.append {initial : Bytes → Prop} {drawn : List (UInt64 × UInt64)} {uuid : Bytes}
    (h : Known initial drawn uuid) (draws : List (UInt64 × UInt64)) :
    Known initial (drawn ++ draws) uuid := by
  rcases h with h | ⟨draw, hdraw, h⟩
  · exact Or.inl h
  · exact Or.inr ⟨draw, List.mem_append_left draws hdraw, h⟩

theorem not_known_of_fresh {initial : Bytes → Prop} {drawn : List (UInt64 × UInt64)}
    {draw : UInt64 × UInt64} (h : Fresh initial (drawn ++ [draw])) :
    ¬Known initial drawn (generateUuid draw) := by
  rintro (hinitial | ⟨other, hother, hsame⟩)
  · exact h.2 draw (List.mem_append_right drawn (List.mem_singleton.mpr rfl)) hinitial
  · cases generateUuid_injective hsame
    exact List.nodup_append.mp h.1 |>.2.2 draw hother draw (List.mem_singleton.mpr rfl) rfl

theorem Fresh.of_append {initial : Bytes → Prop} {drawn draws : List (UInt64 × UInt64)}
    (h : Fresh initial (drawn ++ draws)) : Fresh initial drawn :=
  ⟨(List.nodup_append.mp h.1).1, fun draw hdraw ↦ h.2 draw (List.mem_append_left draws hdraw)⟩

/-- What a call would save has distinct and known uuids. -/
theorem owned_attempt {initial : Bytes → Prop} {db : JsonDB} {drawn : List (UInt64 × UInt64)}
    {call : Mutator} {accounts : Accounts} (howned : Owned (Known initial drawn) db.accounts)
    (hfresh : Fresh initial (drawn ++ call.draws db)) (h : call.attempt db = some accounts) :
    Owned (Known initial (drawn ++ call.draws db)) accounts := by
  have hlater := howned.mono (fun _ hknown ↦ hknown.append (call.draws db))
  have hinsert : ∀ {username : Bytes} {written : Account},
      Known initial (drawn ++ call.draws db) written.uuid →
      Distinct (db.accounts.insert username written) →
      Owned (Known initial (drawn ++ call.draws db)) (db.accounts.insert username written) := by
    intro username written hknown hdistinct
    refine ⟨hdistinct, fun other acc hfind ↦ ?_⟩
    rw [SortedMap.find_insert] at hfind
    split at hfind
    · cases hfind
      exact hknown
    · exact hlater.known other acc hfind
  cases call with
  | addUser username password draw =>
    simp only [Mutator.attempt] at h
    split at h
    · cases h
    next hfree =>
    cases h
    have hdraws : (Mutator.addUser username password draw).draws db = [draw] := if_neg hfree
    rw [hdraws] at hfresh
    apply hinsert
    · rw [hdraws]
      exact Or.inr ⟨draw, List.mem_append_right drawn (List.mem_singleton.mpr rfl), rfl⟩
    · refine distinct_insert_of_fresh howned.distinct fun other found hfind hsame ↦ ?_
      have hknown := howned.known other found hfind
      rw [hsame] at hknown
      exact not_known_of_fresh hfresh hknown
  | updateResources order uuid r | setCampLevel order uuid camp level =>
    obtain ⟨⟨username, acc⟩, hscan, rfl⟩ := Option.map_eq_some_iff.mp h
    have hfind := (scan_eq_some hscan).1
    apply hinsert
    · exact hlater.known username acc hfind
    · exact distinct_insert_of_find howned.distinct hfind rfl

/-- The uuids in memory and in the files at a point of a history. -/
structure Traced (lib : JsonLib) (initial : Bytes → Prop) (history : History) : Prop where
  memory : Owned (Known initial history.drawn) history.db.accounts
  target : Sound lib (Known initial history.drawn) history.db.files.target
  tmp : Sound lib (Known initial history.drawn) history.db.files.tmp

theorem traced_restart {lib : JsonLib} {initial : Bytes → Prop} {files : Files}
    {drawn : List (UInt64 × UInt64)} (htarget : Sound lib (Known initial drawn) files.target)
    (htmp : Sound lib (Known initial drawn) files.tmp) {next : History}
    (h : History.restart lib files drawn = some next) : Traced lib initial next := by
  unfold History.restart at h
  split at h
  · next db hdb =>
    cases h
    obtain ⟨accounts, hload, rfl⟩ := map_eq_ok.mp hdb
    exact ⟨htarget accounts hload, htarget, htmp⟩
  · cases h

/-- A call with a fresh draw leaves distinct uuids in memory and in the files. -/
theorem perform_traced {lib : JsonLib} (hwhole : lib.Whole) {initial : Bytes → Prop}
    {history : History} (h : Traced lib initial history) {call : Mutator} (io : SaveIO)
    (hfresh : Fresh initial (history.drawn ++ call.draws history.db)) :
    Traced lib initial
      ⟨(call.perform lib history.db io).1, history.drawn ++ call.draws history.db⟩ := by
  have hknown : ∀ uuid, Known initial history.drawn uuid →
      Known initial (history.drawn ++ call.draws history.db) uuid :=
    fun _ hold ↦ hold.append _
  rcases call.perform_spec lib history.db io with
    ⟨_, hdb⟩ | ⟨accounts, hattempt, hdb, _⟩
  · rw [hdb]
    exact ⟨h.memory.mono hknown, h.target.mono hknown, h.tmp.mono hknown⟩
  · have howned := owned_attempt h.memory hfresh hattempt
    obtain ⟨htarget, htmp⟩ := save_files_property lib
      (Sound lib (Known initial (history.drawn ++ call.draws history.db))) (sound_none lib _)
      (sound_created hwhole _)
      (fun content length hcontent ↦ sound_take hwhole howned hcontent length)
      (h.target.mono hknown) (h.tmp.mono hknown) io
    rw [hdb]
    exact ⟨howned, htarget, htmp⟩

/-- The draws of a history only grow, and with fresh ones the uuids stay distinct. -/
theorem step_traced {lib : JsonLib} (hwhole : lib.Whole) {initial : Bytes → Prop}
    {history next : History} {operation : Operation}
    (hstep : history.step lib operation = some next) :
    (∃ draws, next.drawn = history.drawn ++ draws) ∧
      (Traced lib initial history → Fresh initial next.drawn → Traced lib initial next) := by
  have hrestart : ∀ {files drawn}, History.restart lib files drawn = some next →
      next.drawn = drawn := by
    intro files drawn h
    unfold History.restart at h
    split at h
    · cases h
      rfl
    · cases h
  cases operation with
  | restart =>
    refine ⟨⟨[], by rw [hrestart hstep, List.append_nil]⟩, fun h _ ↦ ?_⟩
    have hdrawn := hrestart hstep
    exact traced_restart h.target h.tmp hstep
  | mutate call io =>
    simp only [History.step] at hstep
    split at hstep
    · have hdrawn := hrestart hstep
      refine ⟨⟨_, hdrawn⟩, fun h hfresh ↦ ?_⟩
      rw [hdrawn] at hfresh
      have hdied := perform_traced hwhole h io hfresh
      exact traced_restart hdied.target hdied.tmp hstep
    · cases hstep
      exact ⟨⟨_, rfl⟩, fun h hfresh ↦ perform_traced hwhole h io hfresh⟩

/-! ## The view by uuid -/

/-- Uuids stay distinct through every history, whatever its file operations do, and the store is a
map from uuids to records. -/
theorem keyedByUuid_reachable {lib : JsonLib} (hwhole : lib.Whole) {files : Files}
    {start : JsonDB} (hnew : JsonDB.new lib files = .ok start)
    (hdistinct : Distinct start.accounts)
    (hstale : Sound lib (HasUuid start.accounts) files.tmp) {operations : List Operation}
    {final : History}
    (hrun : Transition.run (History.step lib) ⟨start, []⟩ operations = some final)
    (hfresh : Fresh (HasUuid start.accounts) final.drawn) :
    Function.Injective generateUuid ∧
      (∀ draw, (generateUuid draw).length = 32 ∧
        ∀ byte ∈ generateUuid draw, byte ∈ text "0123456789abcdef") ∧
      KeyedByUuid lib final.db := by
  refine ⟨generateUuid_injective, generateUuid_format, keyedByUuid_of_distinct lib ?_⟩
  have hinitial : ∀ uuid, HasUuid start.accounts uuid → Known (HasUuid start.accounts) [] uuid :=
    fun _ huuid ↦ Or.inl huuid
  have hstart : Traced lib (HasUuid start.accounts) ⟨start, []⟩ := by
    obtain ⟨accounts, hload, rfl⟩ := map_eq_ok.mp hnew
    have howned : Owned (HasUuid accounts) accounts :=
      ⟨hdistinct, fun username acc hfind ↦ ⟨username, acc, hfind, rfl⟩⟩
    refine ⟨howned.mono hinitial, fun loaded hloaded ↦ ?_, hstale.mono hinitial⟩
    cases hload.symm.trans hloaded
    exact howned.mono hinitial
  let invariant (history : History) : Prop :=
    Fresh (HasUuid start.accounts) history.drawn → Traced lib (HasUuid start.accounts) history
  have hstep : ∀ {history operation next}, invariant history →
      History.step lib history operation = some next → invariant next := by
    intro history operation next h hnext hlater
    obtain ⟨⟨draws, hdraws⟩, htraced⟩ := step_traced hwhole hnext
    exact htraced (h (Fresh.of_append (hdraws ▸ hlater))) hlater
  have hfinal : invariant final := Transition.invariant_run hstep (fun _ ↦ hstart) hrun
  exact (hfinal hfresh).memory.distinct

/-- An account and a camp level, with a restart between them. -/
theorem keyedByUuid_reachable_restart :
    ∃ final, Transition.run (History.step JsonLib.reference) ⟨{}, []⟩
        [.mutate (.addUser (text "ana") (text "pass") (1, 2)) {}, .restart,
          .mutate (.setCampLevel [text "ana"] (generateUuid (1, 2)) (text "mine") 3) {}] =
        some final ∧ final.drawn = [(1, 2)] ∧ KeyedByUuid JsonLib.reference final.db := by
  have hdraws : (Transition.run (History.step JsonLib.reference) ⟨{}, []⟩
      [.mutate (.addUser (text "ana") (text "pass") (1, 2)) {}, .restart,
        .mutate (.setCampLevel [text "ana"] (generateUuid (1, 2)) (text "mine") 3) {}]).map
      History.drawn = some [(1, 2)] := by decide +kernel
  obtain ⟨final, hrun, hdrawn⟩ := Option.map_eq_some_iff.mp hdraws
  have hnone : ∀ uuid, ¬HasUuid ∅ uuid := by
    rintro uuid ⟨username, acc, hfind, _⟩
    cases hfind
  have hfresh : Fresh (HasUuid ∅) final.drawn := by
    rw [hdrawn]
    exact ⟨by decide, fun _ _ ↦ hnone _⟩
  have hnew : JsonDB.new JsonLib.reference {} = .ok {} := rfl
  have hview := keyedByUuid_reachable JsonLib.reference_whole hnew
    (owned_empty (HasUuid ∅)).distinct (sound_none _ _) hrun hfresh
  exact ⟨final, hrun, hdrawn, hview.2.2⟩

/-- A uuid in the store makes a setter throw when the rename behind it fails. -/
theorem not_threw_only_missing :
    ∃ final, Transition.run (History.step JsonLib.reference) ⟨{}, []⟩
        [.mutate (.addUser (text "ana") (text "pass") (1, 2)) {}] = some final ∧
      Fresh (HasUuid ∅) final.drawn ∧
      ¬∀ uuid r io, (∃ exception, (final.db.updateResources JsonLib.reference
          final.db.accounts.keys uuid r io).2 = .threw exception) ↔
        records final.db.accounts uuid = none := by
  have hend : (Transition.run (History.step JsonLib.reference) ⟨{}, []⟩
      [.mutate (.addUser (text "ana") (text "pass") (1, 2)) {}]).map (fun history ↦
        (history.drawn, (history.db.updateResources JsonLib.reference history.db.accounts.keys
          (generateUuid (1, 2)) {} { renames := false }).2,
        (records history.db.accounts (generateUuid (1, 2))).isSome)) =
      some ([(1, 2)], .threw .filesystemError, true) := by decide +kernel
  obtain ⟨final, hrun, hfinal⟩ := Option.map_eq_some_iff.mp hend
  simp only [Prod.mk.injEq] at hfinal
  obtain ⟨hdrawn, hthrew, hsome⟩ := hfinal
  refine ⟨final, hrun, ⟨by rw [hdrawn]; decide, ?_⟩, fun h ↦ ?_⟩
  · rintro draw _ ⟨username, acc, hfind, _⟩
    cases hfind
  · have hnone := (h (generateUuid (1, 2)) {} { renames := false }).mp ⟨_, hthrew⟩
    rw [hnone] at hsome
    cases hsome

end JsonDB

end NetPixeld
