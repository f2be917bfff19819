import NetPixeld.Foundation.Transition
import NetPixeld.Json.Reference
import NetPixeld.Server.FileFormat
import Mathlib.Logic.Function.Basic

/-!
# Persistence

The account store, restarted at any time from its file, behaves like a store in memory that is never
restarted. `Memory` is that store: a partial function from usernames to accounts, without any file.
Its walks may go in other orders than those over the unordered map, as long as no uuid occurs twice.
The file operations all succeed here; what happens when they fail is the subject of the next module.
-/

namespace NetPixeld.JsonDB

/-! ## Calls -/

/-- The calls a client of the store can make. Where the code walks over the unordered map, the
iteration order belongs to the call. -/
inductive Call where
  | addUser (username password : Bytes) (draw : UInt64 × UInt64)
  | verifyUser (username password : Bytes)
  | getUser (username password : Bytes)
  | userExists (username : Bytes)
  | getResources (order : List Bytes) (uuid : Bytes)
  | updateResources (order : List Bytes) (uuid : Bytes) (r : Resources)
  | getCampLevels (order : List Bytes) (uuid : Bytes)
  | getCampLevel (order : List Bytes) (uuid camp : Bytes)
  | setCampLevel (order : List Bytes) (uuid camp : Bytes) (level : Int32)

/-- The strings a call can put into the store are UTF-8. -/
def Call.Storable : Call → Prop
  | .addUser username password _ => Utf8.Valid username ∧ Utf8.Valid password
  | .setCampLevel _ _ camp _ => Utf8.Valid camp
  | _ => True

/-- What a call gives back. -/
inductive Reply where
  | flag (value : Bool)
  | uuid (outcome : Outcome Bytes)
  | resources (outcome : Outcome Resources)
  | levels (outcome : Outcome (SortedMap Bytes Int32))
  | level (outcome : Outcome Int32)
  | done (outcome : Outcome Unit)
deriving DecidableEq

/-- One call on the store, with all file operations succeeding. -/
def perform (lib : JsonLib) (db : JsonDB) : Call → JsonDB × Reply
  | .addUser username password draw =>
      let result := db.addUser lib username password draw {}
      (result.1, .uuid result.2)
  | .verifyUser username password => (db, .flag (db.verifyUser username password))
  | .getUser username password => (db, .uuid (.ofExcept (db.getUser username password)))
  | .userExists username => (db, .flag (db.userExists username))
  | .getResources order uuid => (db, .resources (.ofExcept (db.getResources order uuid)))
  | .updateResources order uuid r =>
      let result := db.updateResources lib order uuid r {}
      (result.1, .done result.2)
  | .getCampLevels order uuid => (db, .levels (.ofExcept (db.getCampLevels order uuid)))
  | .getCampLevel order uuid camp => (db, .level (.ofExcept (db.getCampLevel order uuid camp)))
  | .setCampLevel order uuid camp level =>
      let result := db.setCampLevel lib order uuid camp level {}
      (result.1, .done result.2)

/-! ## Runs with restarts -/

/-- A call, or the end of the process and a new store built on the same path. -/
inductive Event where
  | request (call : Call)
  | restart

def Event.Storable : Event → Prop
  | .request call => call.Storable
  | .restart => True

/-- A store and the replies it has given since the first start. -/
structure Service where
  db : JsonDB
  replies : List Reply := []

/-- One event. There is no next state when the constructor throws. -/
def Service.step (lib : JsonLib) (service : Service) : Event → Option Service
  | .request call =>
      let result := service.db.perform lib call
      some ⟨result.1, service.replies ++ [result.2]⟩
  | .restart =>
      match JsonDB.new lib service.db.files with
      | .ok db => some { service with db := db }
      | .error _ => none

/-! ## The store in memory -/

/-- Accounts by username. -/
abbrev Memory := Bytes → Option Account

namespace Memory

/-- The first account of a range of usernames with a uuid. -/
def lookup (memory : Memory) (order : List Bytes) (uuid : Bytes) : Option (Bytes × Account) :=
  order.findSome? fun user ↦
    (memory user).bind fun acc ↦ if acc.uuid = uuid then some (user, acc) else none

/-- Change the account found under a uuid. -/
def modify (memory : Memory) (order : List Bytes) (uuid : Bytes) (change : Account → Account) :
    Memory × Outcome Unit :=
  match memory.lookup order uuid with
  | some (user, acc) => (Function.update memory user (some (change acc)), .returned ())
  | none => (memory, .threw (uuidNotFound uuid))

/-- Read the account found under a uuid. -/
def read {α : Type} (memory : Memory) (order : List Bytes) (uuid : Bytes) (get : Account → α) :
    Outcome α :=
  match memory.lookup order uuid with
  | some (_, acc) => .returned (get acc)
  | none => .threw (uuidNotFound uuid)

def addUser (memory : Memory) (username password : Bytes) (uuid : Bytes) :
    Memory × Outcome Bytes :=
  match memory username with
  | some _ => (memory, .threw (.runtimeError (text "User already exists: " ++ username)))
  | none =>
      (Function.update memory username (some { password := password, uuid := uuid }),
        .returned uuid)

def getUser (memory : Memory) (username password : Bytes) : Outcome Bytes :=
  match memory username with
  | none => .threw (.runtimeError (text "User not found: " ++ username))
  | some acc =>
      if acc.password = password then .returned acc.uuid
      else .threw (.runtimeError (text "Invalid password for " ++ username))

/-- One call. -/
def perform (memory : Memory) : Call → Memory × Reply
  | .addUser username password draw =>
      let result := memory.addUser username password (generateUuid draw)
      (result.1, .uuid result.2)
  | .verifyUser username password =>
      (memory, .flag ((memory username).any fun acc ↦ acc.password = password))
  | .getUser username password => (memory, .uuid (memory.getUser username password))
  | .userExists username => (memory, .flag (memory username).isSome)
  | .getResources order uuid => (memory, .resources (memory.read order uuid Account.resources))
  | .updateResources order uuid r =>
      let result := memory.modify order uuid fun acc ↦ { acc with resources := r }
      (result.1, .done result.2)
  | .getCampLevels order uuid => (memory, .levels (memory.read order uuid Account.campLevels))
  | .getCampLevel order uuid camp =>
      (memory, .level (memory.read order uuid fun acc ↦ (acc.campLevels.find camp).getD 0))
  | .setCampLevel order uuid camp level =>
      let result := memory.modify order uuid fun acc ↦
        { acc with campLevels := acc.campLevels.insert camp level }
      (result.1, .done result.2)

/-- An event together with the replies so far; a restart is nothing to a store in memory. -/
def step (history : Memory × List Reply) : Event → Memory × List Reply
  | .request call =>
      let result := history.1.perform call
      (result.1, history.2 ++ [result.2])
  | .restart => history

end Memory

/-! ## Saving -/

/-- The store and its file agree. -/
structure Saved (lib : JsonLib) (db : JsonDB) : Prop where
  valid : Valid db.accounts
  loaded : load lib db.files.target = .ok db.accounts

/-- A save whose file operations succeed leaves the complete serialization in the file. -/
theorem save_ok (lib : JsonLib) {accounts : Accounts} {content : Bytes}
    (hcontent : serialization lib accounts = .ok content) (files : Files) :
    save lib accounts {} files = (⟨some content, none⟩, .returned ()) := by
  simp [save, hcontent, openTmp, writeTmp, rename, SaveIO.reaching]

theorem commit_ok {lib : JsonLib} (hlib : lib.Lawful) (db : JsonDB) {accounts : Accounts}
    (hvalid : Valid accounts) :
    ∃ files, commit lib db accounts {} = (⟨accounts, files⟩, .returned ()) ∧
      Saved lib ⟨accounts, files⟩ := by
  obtain ⟨content, hcontent⟩ := serialization_ok lib hvalid
  refine ⟨⟨some content, none⟩, ?_, hvalid, load_serialization hlib hvalid hcontent⟩
  simp [commit, save_ok lib hcontent]

/-- The content of a store, as a store in memory. -/
def memory (db : JsonDB) : Memory := db.accounts.find

theorem memory_insert (accounts : Accounts) (files : Files) (username : Bytes) (acc : Account) :
    memory ⟨accounts.insert username acc, files⟩ =
      Function.update (memory ⟨accounts, files⟩) username (some acc) := by
  funext other
  by_cases hother : username = other
  · subst hother
    rw [Function.update_self]
    exact SortedMap.find_insert_self ..
  · rw [Function.update_of_ne (Ne.symm hother)]
    exact SortedMap.find_insert_of_ne _ hother _

theorem scan_eq_lookup (db : JsonDB) (order : List Bytes) (uuid : Bytes) :
    scan db.accounts order uuid = db.memory.lookup order uuid := by
  refine congrArg (fun search ↦ List.findSome? search order) (funext fun user ↦ ?_)
  simp only [memory]
  cases db.accounts.find user <;> rfl

theorem find_of_lookup {memory : Memory} {order : List Bytes} {uuid user : Bytes} {acc : Account}
    (h : memory.lookup order uuid = some (user, acc)) :
    memory user = some acc ∧ acc.uuid = uuid := by
  obtain ⟨other, _, hother⟩ := List.exists_of_findSome?_eq_some h
  obtain ⟨found, hfound, hsome⟩ := Option.bind_eq_some_iff.mp hother
  split at hsome
  · next huuid =>
    cases hsome
    exact ⟨hfound, huuid⟩
  · cases hsome

/-! ## One call -/

/-- A call answered by a store and by the store in memory, with the contents after it. -/
structure Refines (lib : JsonLib) (result : JsonDB × Reply) (expected : Memory × Reply) : Prop where
  saved : Saved lib result.1
  content : result.1.memory = expected.1
  reply : result.2 = expected.2

theorem modifyAccount_refines {lib : JsonLib} (hlib : lib.Lawful) {db : JsonDB}
    (hsaved : Saved lib db) (order : List Bytes) (uuid : Bytes) (change : Account → Account)
    (hchange : ∀ {user acc}, AccountValid user acc → AccountValid user (change acc)) :
    Saved lib (modifyAccount lib db order uuid change {}).1 ∧
      (modifyAccount lib db order uuid change {}).1.memory =
        (db.memory.modify order uuid change).1 ∧
      (modifyAccount lib db order uuid change {}).2 = (db.memory.modify order uuid change).2 := by
  rw [modifyAccount, Memory.modify, scan_eq_lookup]
  cases hlookup : db.memory.lookup order uuid with
  | none => exact ⟨hsaved, rfl, rfl⟩
  | some entry =>
    obtain ⟨user, acc⟩ := entry
    have hacc := hsaved.valid user acc (find_of_lookup hlookup).1
    obtain ⟨files, hcommit, hsaved'⟩ :=
      commit_ok hlib db (valid_insert hsaved.valid (hchange hacc))
    simp only [hcommit]
    exact ⟨hsaved', memory_insert .., trivial⟩

theorem addUser_refines {lib : JsonLib} (hlib : lib.Lawful) {db : JsonDB} (hsaved : Saved lib db)
    {username password : Bytes} (husername : Utf8.Valid username)
    (hpassword : Utf8.Valid password) (draw : UInt64 × UInt64) :
    Saved lib (addUser lib db username password draw {}).1 ∧
      (addUser lib db username password draw {}).1.memory =
        (db.memory.addUser username password (generateUuid draw)).1 ∧
      (addUser lib db username password draw {}).2 =
        (db.memory.addUser username password (generateUuid draw)).2 := by
  have hmemory : db.memory username = db.accounts.find username := rfl
  rw [addUser, Memory.addUser, hmemory]
  cases hfind : db.accounts.find username with
  | some acc => exact ⟨hsaved, rfl, rfl⟩
  | none =>
    have hacc : AccountValid username { password := password, uuid := generateUuid draw } :=
      ⟨husername, hpassword, generateUuid_valid draw, fun camp level h ↦ by cases h⟩
    obtain ⟨files, hcommit, hsaved'⟩ := commit_ok hlib db (valid_insert hsaved.valid hacc)
    simp only [Option.isSome_none, Bool.false_eq_true, if_false, hcommit]
    exact ⟨hsaved', memory_insert .., rfl⟩

theorem readAccount_eq_read {α : Type} (db : JsonDB) (order : List Bytes) (uuid : Bytes)
    (get : Account → α) :
    Outcome.ofExcept (db.readAccount order uuid get) = db.memory.read order uuid get := by
  rw [readAccount, Memory.read, scan_eq_lookup]
  cases db.memory.lookup order uuid <;> rfl

theorem getCampLevel_eq_read (db : JsonDB) (order : List Bytes) (uuid camp : Bytes) :
    Outcome.ofExcept (db.getCampLevel order uuid camp) =
      db.memory.read order uuid fun acc ↦ (acc.campLevels.find camp).getD 0 := by
  rw [getCampLevel, getCampLevels, readAccount, Memory.read, scan_eq_lookup]
  cases db.memory.lookup order uuid with
  | none => rfl
  | some entry =>
    simp only [bind, Except.bind]
    cases entry.2.campLevels.find camp <;> rfl

theorem getUser_eq (db : JsonDB) (username password : Bytes) :
    Outcome.ofExcept (db.getUser username password) = db.memory.getUser username password := by
  rw [getUser, Memory.getUser, memory]
  cases db.accounts.find username with
  | none => rfl
  | some acc => by_cases hpassword : acc.password = password <;> simp [hpassword, Outcome.ofExcept]

theorem verifyUser_eq (db : JsonDB) (username password : Bytes) :
    db.verifyUser username password =
      (db.memory username).any fun acc ↦ acc.password = password := by
  rw [verifyUser, memory]
  cases db.accounts.find username <;> rfl

/-- Every call is answered as by the store in memory and leaves the file up to date. -/
theorem perform_refines {lib : JsonLib} (hlib : lib.Lawful) {db : JsonDB} (hsaved : Saved lib db)
    {call : Call} (hcall : call.Storable) :
    Refines lib (db.perform lib call) (db.memory.perform call) := by
  cases call with
  | addUser username password draw =>
    obtain ⟨hnext, hcontent, hreply⟩ := addUser_refines hlib hsaved hcall.1 hcall.2 draw
    exact ⟨hnext, hcontent, congrArg Reply.uuid hreply⟩
  | verifyUser username password =>
    exact ⟨hsaved, rfl, congrArg Reply.flag (db.verifyUser_eq username password)⟩
  | getUser username password =>
    exact ⟨hsaved, rfl, congrArg Reply.uuid (db.getUser_eq username password)⟩
  | userExists username => exact ⟨hsaved, rfl, rfl⟩
  | getResources order uuid =>
    exact ⟨hsaved, rfl, congrArg Reply.resources (db.readAccount_eq_read order uuid _)⟩
  | updateResources order uuid r =>
    obtain ⟨hnext, hcontent, hreply⟩ := modifyAccount_refines hlib hsaved order uuid
      (fun acc ↦ { acc with resources := r }) fun h ↦ ⟨h.1, h.2, h.3, h.4⟩
    exact ⟨hnext, hcontent, congrArg Reply.done hreply⟩
  | getCampLevels order uuid =>
    exact ⟨hsaved, rfl, congrArg Reply.levels (db.readAccount_eq_read order uuid _)⟩
  | getCampLevel order uuid camp =>
    exact ⟨hsaved, rfl, congrArg Reply.level (db.getCampLevel_eq_read order uuid camp)⟩
  | setCampLevel order uuid camp level =>
    obtain ⟨hnext, hcontent, hreply⟩ := modifyAccount_refines hlib hsaved order uuid
      (fun acc ↦ { acc with campLevels := acc.campLevels.insert camp level })
      fun h ↦ ⟨h.1, h.2, h.3, by
        intro camp' level' hfind
        rw [SortedMap.find_insert] at hfind
        split at hfind
        · next heq => exact heq ▸ hcall
        · exact h.4 camp' level' hfind⟩
    exact ⟨hnext, hcontent, congrArg Reply.done hreply⟩

/-! ## The accounts that are kept -/

namespace Memory

/-- Writing an account keeps all others, and itself when its uuid and password stay. -/
theorem kept_update {memory : Memory} {user : Bytes} {written : Account}
    (h : ∀ acc, memory user = some acc →
      written.uuid = acc.uuid ∧ written.password = acc.password) :
    Kept memory (Function.update memory user (some written)) := by
  intro username acc hacc
  by_cases husername : username = user
  · subst husername
    exact ⟨written, Function.update_self .., h acc hacc⟩
  · exact ⟨acc, by rw [Function.update_of_ne husername, hacc], rfl, rfl⟩

theorem modify_kept (memory : Memory) (order : List Bytes) (uuid : Bytes)
    {change : Account → Account}
    (h : ∀ acc, (change acc).uuid = acc.uuid ∧ (change acc).password = acc.password) :
    Kept memory (memory.modify order uuid change).1 := by
  rw [modify]
  cases hlookup : memory.lookup order uuid with
  | none => exact Kept.refl memory
  | some entry =>
    obtain ⟨user, found⟩ := entry
    refine kept_update fun acc hacc ↦ ?_
    cases (find_of_lookup hlookup).1.symm.trans hacc
    exact h found

theorem addUser_kept (memory : Memory) (username password uuid : Bytes) :
    Kept memory (memory.addUser username password uuid).1 := by
  rw [addUser]
  cases hfind : memory username with
  | some acc => exact Kept.refl memory
  | none =>
    refine kept_update fun acc hacc ↦ ?_
    cases hfind.symm.trans hacc

/-- No call loses an account or changes a uuid or a password. -/
theorem perform_kept (memory : Memory) (call : Call) : Kept memory (memory.perform call).1 := by
  cases call with
  | addUser username password draw => exact memory.addUser_kept username password _
  | updateResources order uuid r => exact memory.modify_kept order uuid fun _ ↦ ⟨rfl, rfl⟩
  | setCampLevel order uuid camp level => exact memory.modify_kept order uuid fun _ ↦ ⟨rfl, rfl⟩
  | verifyUser username password => exact Kept.refl memory
  | getUser username password => exact Kept.refl memory
  | userExists username => exact Kept.refl memory
  | getResources order uuid => exact Kept.refl memory
  | getCampLevels order uuid => exact Kept.refl memory
  | getCampLevel order uuid camp => exact Kept.refl memory

theorem foldl_kept (events : List Event) (history : Memory × List Reply) :
    Kept history.1 (events.foldl Memory.step history).1 := by
  induction events generalizing history with
  | nil => exact Kept.refl _
  | cons event events ih =>
    have hstep : Kept history.1 (Memory.step history event).1 := by
      cases event with
      | request call => exact history.1.perform_kept call
      | restart => exact Kept.refl _
    exact hstep.trans (ih _)

end Memory

/-! ## Iteration orders -/

namespace Memory

/-- No two accounts share a uuid. -/
def Distinct (memory : Memory) : Prop :=
  ∀ user other acc acc', memory user = some acc → memory other = some acc' →
    acc.uuid = acc'.uuid → user = other

/-- A walk over these usernames reaches every account. -/
def Covered (memory : Memory) (order : List Bytes) : Prop :=
  ∀ user, memory user ≠ none → user ∈ order

end Memory

/-- The same call with another iteration order. -/
def Call.reorder (order : List Bytes) : Call → Call
  | .getResources _ uuid => .getResources order uuid
  | .updateResources _ uuid r => .updateResources order uuid r
  | .getCampLevels _ uuid => .getCampLevels order uuid
  | .getCampLevel _ uuid camp => .getCampLevel order uuid camp
  | .setCampLevel _ uuid camp level => .setCampLevel order uuid camp level
  | .addUser username password draw => .addUser username password draw
  | .verifyUser username password => .verifyUser username password
  | .getUser username password => .getUser username password
  | .userExists username => .userExists username

/-- The walk of a call, if it makes one, reaches every account. -/
def Call.Covers (memory : Memory) : Call → Prop
  | .getResources order _ => memory.Covered order
  | .updateResources order _ _ => memory.Covered order
  | .getCampLevels order _ => memory.Covered order
  | .getCampLevel order _ _ => memory.Covered order
  | .setCampLevel order _ _ _ => memory.Covered order
  | _ => True

/-- The uuid a call draws is not in use. -/
def Call.Fresh (memory : Memory) : Call → Prop
  | .addUser username _ draw =>
      memory username = none → ∀ user acc, memory user = some acc → acc.uuid ≠ generateUuid draw
  | _ => True

namespace Memory

/-- The same events with iteration orders of their own. Every walk reaches all the accounts, and no
uuid that is in use is drawn. -/
inductive Reordered : Memory → List Event → List Event → Prop
  | nil (memory : Memory) : Reordered memory [] []
  | restart {memory : Memory} {events others : List Event} (rest : Reordered memory events others) :
      Reordered memory (.restart :: events) (.restart :: others)
  | request {memory : Memory} {call : Call} {events others : List Event} (order : List Bytes)
      (fresh : call.Fresh memory) (covers : call.Covers memory)
      (covers' : (call.reorder order).Covers memory)
      (rest : Reordered (memory.perform call).1 events others) :
      Reordered memory (.request call :: events) (.request (call.reorder order) :: others)

/-- With distinct uuids a walk that reaches an account finds it by its uuid. -/
theorem lookup_of_find {memory : Memory} (hdistinct : memory.Distinct) {order : List Bytes}
    {user : Bytes} {acc : Account} (hmem : user ∈ order) (hacc : memory user = some acc) :
    memory.lookup order acc.uuid = some (user, acc) := by
  cases hlookup : memory.lookup order acc.uuid with
  | none =>
    have hmiss := List.findSome?_eq_none_iff.mp hlookup user hmem
    simp [hacc] at hmiss
  | some entry =>
    obtain ⟨other, acc'⟩ := entry
    obtain ⟨hacc', huuid⟩ := find_of_lookup hlookup
    cases hdistinct user other acc acc' hacc hacc' huuid.symm
    cases hacc.symm.trans hacc'
    rfl

theorem lookup_eq_some_iff {memory : Memory} (hdistinct : memory.Distinct) {order : List Bytes}
    (horder : memory.Covered order) {uuid user : Bytes} {acc : Account} :
    memory.lookup order uuid = some (user, acc) ↔ memory user = some acc ∧ acc.uuid = uuid := by
  constructor
  · exact find_of_lookup
  · rintro ⟨hacc, rfl⟩
    have hmem : user ∈ order := horder user (by rw [hacc]; exact Option.some_ne_none acc)
    exact lookup_of_find hdistinct hmem hacc

/-- With distinct uuids the iteration order is irrelevant. -/
theorem lookup_eq_of_distinct {memory : Memory} (hdistinct : memory.Distinct)
    {order order' : List Bytes} (horder : memory.Covered order)
    (horder' : memory.Covered order') (uuid : Bytes) :
    memory.lookup order uuid = memory.lookup order' uuid := by
  refine Option.ext fun ⟨user, acc⟩ ↦ ?_
  rw [lookup_eq_some_iff hdistinct horder, lookup_eq_some_iff hdistinct horder']

/-- A call does not depend on the iteration order. -/
theorem perform_reorder {memory : Memory} (hdistinct : memory.Distinct) {call : Call}
    {order : List Bytes} (hcovers : call.Covers memory)
    (hcovers' : (call.reorder order).Covers memory) :
    memory.perform (call.reorder order) = memory.perform call := by
  cases call with
  | addUser username password draw => rfl
  | verifyUser username password => rfl
  | getUser username password => rfl
  | userExists username => rfl
  | getResources order' uuid =>
    simp only [Call.reorder, perform, read, lookup_eq_of_distinct hdistinct hcovers' hcovers uuid]
  | updateResources order' uuid r =>
    simp only [Call.reorder, perform, modify, lookup_eq_of_distinct hdistinct hcovers' hcovers uuid]
  | getCampLevels order' uuid =>
    simp only [Call.reorder, perform, read, lookup_eq_of_distinct hdistinct hcovers' hcovers uuid]
  | getCampLevel order' uuid camp =>
    simp only [Call.reorder, perform, read, lookup_eq_of_distinct hdistinct hcovers' hcovers uuid]
  | setCampLevel order' uuid camp level =>
    simp only [Call.reorder, perform, modify, lookup_eq_of_distinct hdistinct hcovers' hcovers uuid]

theorem covered_update {memory : Memory} {order : List Bytes} (h : memory.Covered order)
    {user : Bytes} {written : Option Account} (huser : user ∈ order) :
    Covered (Function.update memory user written) order := by
  intro other hother
  by_cases heq : other = user
  · exact heq ▸ huser
  · rw [Function.update_of_ne heq] at hother
    exact h other hother

theorem distinct_update {memory : Memory} (hdistinct : memory.Distinct) {user : Bytes}
    {written : Account}
    (hwritten : ∀ other acc, memory other = some acc → acc.uuid = written.uuid → other = user) :
    Distinct (Function.update memory user (some written)) := by
  intro first second acc acc' hfirst hsecond huuid
  by_cases h : first = user
  · by_cases h' : second = user
    · exact h.trans h'.symm
    · subst h
      rw [Function.update_self] at hfirst
      rw [Function.update_of_ne h'] at hsecond
      cases hfirst
      exact (hwritten second acc' hsecond huuid.symm).symm
  · rw [Function.update_of_ne h] at hfirst
    by_cases h' : second = user
    · subst h'
      rw [Function.update_self] at hsecond
      cases hsecond
      exact hwritten first acc hfirst huuid
    · rw [Function.update_of_ne h'] at hsecond
      exact hdistinct first second acc acc' hfirst hsecond huuid

theorem distinct_modify {memory : Memory} (hdistinct : memory.Distinct) (order : List Bytes)
    (uuid : Bytes) {change : Account → Account} (hchange : ∀ acc, (change acc).uuid = acc.uuid) :
    Distinct (memory.modify order uuid change).1 := by
  rw [modify]
  cases hlookup : memory.lookup order uuid with
  | none => exact hdistinct
  | some entry =>
    obtain ⟨user, found⟩ := entry
    refine distinct_update hdistinct fun other acc hacc huuid ↦ ?_
    exact hdistinct other user acc found hacc (find_of_lookup hlookup).1
      (huuid.trans (hchange found))

/-- The uuids stay distinct as long as none is drawn twice. -/
theorem distinct_perform {memory : Memory} (hdistinct : memory.Distinct) {call : Call}
    (hfresh : call.Fresh memory) : Distinct (memory.perform call).1 := by
  cases call with
  | addUser username password draw =>
    rw [perform, addUser]
    cases hfind : memory username with
    | some acc => exact hdistinct
    | none =>
      exact distinct_update hdistinct fun other acc hacc huuid ↦
        absurd huuid (hfresh hfind other acc hacc)
  | updateResources order uuid r => exact distinct_modify hdistinct order uuid fun _ ↦ rfl
  | setCampLevel order uuid camp level => exact distinct_modify hdistinct order uuid fun _ ↦ rfl
  | verifyUser username password => exact hdistinct
  | getUser username password => exact hdistinct
  | userExists username => exact hdistinct
  | getResources order uuid => exact hdistinct
  | getCampLevels order uuid => exact hdistinct
  | getCampLevel order uuid camp => exact hdistinct

/-- A run of the store in memory does not depend on the iteration orders. -/
theorem foldl_reordered {memory : Memory} {events others : List Event}
    (h : Reordered memory events others) (hdistinct : memory.Distinct) (replies : List Reply) :
    others.foldl step (memory, replies) = events.foldl step (memory, replies) := by
  induction h generalizing replies with
  | nil memory => rfl
  | restart _ ih => exact ih hdistinct replies
  | request order fresh covers covers' _ ih =>
    rw [List.foldl_cons, List.foldl_cons, step, step, perform_reorder hdistinct covers covers']
    exact ih (distinct_perform hdistinct fresh) _

end Memory

/-! ## Whole runs -/

/-- A service whose file is up to date, beside the store in memory after the same events. -/
structure Agrees (lib : JsonLib) (service : Service) (history : Memory × List Reply) : Prop where
  saved : Saved lib service.db
  content : service.db.memory = history.1
  replies : service.replies = history.2

/-- Without a file both are empty. -/
theorem agrees_empty (lib : JsonLib) (stale : Option Bytes) :
    Agrees lib ⟨⟨∅, ⟨none, stale⟩⟩, []⟩ (fun _ ↦ none, []) :=
  ⟨⟨valid_empty, rfl⟩, rfl, rfl⟩

/-- A store built from an up-to-date file is the store that wrote it. -/
theorem new_of_saved {lib : JsonLib} {db : JsonDB} (h : Saved lib db) :
    JsonDB.new lib db.files = .ok db := by
  rw [JsonDB.new, h.loaded]
  rfl

theorem step_agrees {lib : JsonLib} (hlib : lib.Lawful) {service : Service}
    {history : Memory × List Reply} {event : Event} (h : Agrees lib service history)
    (hevent : event.Storable) :
    ∃ next, service.step lib event = some next ∧ Agrees lib next (Memory.step history event) := by
  cases event with
  | request call =>
    have hcall : call.Storable := hevent
    have hrefines := perform_refines hlib h.saved hcall
    rw [h.content] at hrefines
    refine ⟨_, rfl, hrefines.saved, hrefines.content, ?_⟩
    simp only [Memory.step]
    rw [h.replies, hrefines.reply]
  | restart =>
    refine ⟨service, ?_, h⟩
    rw [Service.step, new_of_saved h.saved]

/-- No event of a run loses an account or changes a uuid or a password. -/
theorem run_kept {lib : JsonLib} (hlib : lib.Lawful) (stale : Option Bytes) {events : List Event}
    (hevents : ∀ event ∈ events, event.Storable) {final : Service}
    (hrun : Transition.run (Service.step lib) ⟨⟨∅, ⟨none, stale⟩⟩, []⟩ events = some final) :
    ∀ before after middle, events = before ++ after →
      Transition.run (Service.step lib) ⟨⟨∅, ⟨none, stale⟩⟩, []⟩ before = some middle →
      Kept middle.db.accounts.find final.db.accounts.find := by
  have hstart := agrees_empty lib stale
  rintro before after middle rfl hmiddle
  obtain ⟨final', hrun', hfinal⟩ := Transition.simulation_run (step_agrees hlib) hstart hevents
  cases hrun.symm.trans hrun'
  have hbefore : ∀ event ∈ before, event.Storable :=
    fun event hevent ↦ hevents event (List.mem_append_left after hevent)
  obtain ⟨middle', hrun'', hagrees⟩ := Transition.simulation_run (step_agrees hlib) hstart hbefore
  cases hmiddle.symm.trans hrun''
  have hkept := Memory.foldl_kept after (before.foldl Memory.step (fun _ ↦ none, []))
  rw [← List.foldl_append, ← hfinal.content, ← hagrees.content] at hkept
  exact hkept

/-- Restarting the store from its file at any point of any run is invisible, also beside a store in
memory that walks over its accounts in other orders. -/
theorem restart_invisible {lib : JsonLib} (hlib : lib.Lawful) (stale : Option Bytes)
    (events : List Event) (hevents : ∀ event ∈ events, event.Storable) :
    ∃ start final, JsonDB.new lib ⟨none, stale⟩ = .ok start ∧
      Transition.run (Service.step lib) ⟨start, []⟩ events = some final ∧
      final.replies = (events.foldl Memory.step (fun _ ↦ none, [])).2 ∧
      final.db.accounts.find = (events.foldl Memory.step (fun _ ↦ none, [])).1 ∧
      load lib final.db.files.target = .ok final.db.accounts ∧
      (∀ before after middle, events = before ++ after →
        Transition.run (Service.step lib) ⟨start, []⟩ before = some middle →
        Kept middle.db.accounts.find final.db.accounts.find) ∧
      ∀ others, Memory.Reordered (fun _ ↦ none) events others →
        final.replies = (others.foldl Memory.step (fun _ ↦ none, [])).2 ∧
        final.db.accounts.find = (others.foldl Memory.step (fun _ ↦ none, [])).1 := by
  obtain ⟨final, hrun, hfinal⟩ :=
    Transition.simulation_run (step_agrees hlib) (agrees_empty lib stale) hevents
  refine ⟨⟨∅, ⟨none, stale⟩⟩, final, rfl, hrun, hfinal.replies, hfinal.content,
    hfinal.saved.loaded, ?_, ?_⟩
  · exact run_kept hlib stale hevents hrun
  · intro others hothers
    rw [Memory.foldl_reordered hothers (fun _ _ _ _ h ↦ by cases h) []]
    exact ⟨hfinal.replies, hfinal.content⟩

/-- Two accounts found again after a restart, in memory by a walk the other way round. -/
theorem restart_invisible_login :
    let walk (order : List Bytes) : List Event :=
      [.request (.addUser (text "ana") (text "pass") (1, 2)),
        .request (.addUser (text "bob") (text "word") (3, 4)),
        .request (.updateResources order (generateUuid (3, 4)) { wood := 7 }), .restart,
        .request (.getUser (text "ana") (text "pass")),
        .request (.getResources order (generateUuid (3, 4)))]
    ∃ start final, JsonDB.new JsonLib.reference ⟨none, none⟩ = .ok start ∧
      Transition.run (Service.step JsonLib.reference) ⟨start, []⟩
        (walk [text "ana", text "bob"]) = some final ∧
      final.replies = [.uuid (.returned (generateUuid (1, 2))),
        .uuid (.returned (generateUuid (3, 4))), .done (.returned ()),
        .uuid (.returned (generateUuid (1, 2))), .resources (.returned { wood := 7 })] ∧
      final.replies =
        ((walk [text "bob", text "ana"]).foldl Memory.step (fun _ ↦ none, [])).2 := by
  intro walk
  have hstorable : ∀ event ∈ walk [text "ana", text "bob"], event.Storable := by
    intro event hevent
    simp only [walk, List.mem_cons, List.not_mem_nil, or_false] at hevent
    rcases hevent with rfl | rfl | rfl | rfl | rfl | rfl
    · exact ⟨Utf8.valid_text (by decide), Utf8.valid_text (by decide)⟩
    · exact ⟨Utf8.valid_text (by decide), Utf8.valid_text (by decide)⟩
    all_goals trivial
  have hboth : ∀ (order : List Bytes) (acc acc' : Account), text "ana" ∈ order →
      text "bob" ∈ order → Memory.Covered (Function.update
        (Function.update (fun _ ↦ none) (text "ana") (some acc)) (text "bob") (some acc')) order :=
    fun order acc acc' hana hbob ↦
      Memory.covered_update (Memory.covered_update (fun user h ↦ absurd rfl h) hana) hbob
  have hreordered : Memory.Reordered (fun _ ↦ none) (walk [text "ana", text "bob"])
      (walk [text "bob", text "ana"]) := by
    refine .request [] ?_ trivial trivial <| .request [] ?_ trivial trivial <|
      .request [text "bob", text "ana"] trivial ?_ ?_ <| .restart <|
      .request [] trivial trivial trivial <|
      .request [text "bob", text "ana"] trivial ?_ ?_ <| .nil _
    · rintro _ user acc hacc
      cases hacc
    · rintro _ user acc hacc
      replace hacc : Function.update (fun _ ↦ none) (text "ana")
        (some { password := text "pass", uuid := generateUuid (1, 2) }) user = some acc := hacc
      by_cases huser : user = text "ana"
      · subst huser
        rw [Function.update_self] at hacc
        cases hacc
        decide
      · rw [Function.update_of_ne huser] at hacc
        cases hacc
    · exact hboth _ _ _ (by decide) (by decide)
    · exact hboth _ _ _ (by decide) (by decide)
    · exact Memory.covered_update (hboth _ _ _ (by decide) (by decide)) (by decide)
    · exact Memory.covered_update (hboth _ _ _ (by decide) (by decide)) (by decide)
  obtain ⟨start, final, hnew, hrun, hreplies, _, _, _, hothers⟩ :=
    restart_invisible JsonLib.reference_lawful none (walk [text "ana", text "bob"]) hstorable
  refine ⟨start, final, hnew, hrun, hreplies.trans ?_, (hothers _ hreordered).1⟩
  decide

end NetPixeld.JsonDB
