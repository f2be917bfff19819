import NetPixeld.Common.Resource
import NetPixeld.Json.DumpText

/-!
# The account store

`JsonDB` keeps the accounts in an unordered map and rewrites the whole file after every change.
The map is modelled by its content; where the code walks over it, the iteration order is an
argument. The outcomes of the file operations of a save are the argument `io`.
-/

namespace NetPixeld

structure Account where
  password : Bytes := []
  uuid : Bytes := []
  resources : Resources := {}
  campLevels : SortedMap Bytes Int32 := ∅
deriving DecidableEq

abbrev Accounts := SortedMap Bytes Account

/-- The file at `m_filepath` and the file beside it with the suffix `.tmp`. -/
structure Files where
  target : Option Bytes := none
  tmp : Option Bytes := none
deriving DecidableEq

/-- Where the process can stop inside a save. -/
inductive Stage where
  | start
  | opened
  | written
  | renamed
deriving DecidableEq

/-- The outcomes of the file operations of one save. -/
structure SaveIO where
  /-- `std::ofstream out(tmp)` opens, creating or truncating the file. -/
  opens : Bool := true
  /-- The number of bytes that reach the file when not all of them do. -/
  short : Option ℕ := none
  /-- `std::filesystem::rename` succeeds. -/
  renames : Bool := true
  /-- The process stops after this stage. -/
  stop : Option Stage := none
deriving DecidableEq

namespace SaveIO

/-- The bytes of a text that reach the file. -/
def reaching (io : SaveIO) (content : Bytes) : Bytes :=
  match io.short with
  | none => content
  | some length => content.take length

end SaveIO

namespace JsonDB

/-! ## Loading -/

/-- The camp levels of one account. -/
def loadCampLevels (json : Json) : Except Exn (SortedMap Bytes Int32) :=
  json.items.foldlM (fun levels entry ↦ do
    let level ← entry.2.getInt32
    .ok (levels.insert entry.1 level)) ∅

/-- The totals of one account. -/
def loadResources (jres : Json) : Except Exn Resources := do
  let wood ← jres.value (text "wood") Json.getULL 0
  let food ← jres.value (text "food") Json.getULL 0
  let iron ← jres.value (text "iron") Json.getULL 0
  .ok ⟨wood, food, iron⟩

/-- The body of the loop over the accounts: missing members get defaults. -/
def loadAccount (val : Json) : Except Exn Account := do
  let password ← val.value (text "password") Json.getString []
  let uuid ← val.value (text "uuid") Json.getString []
  let jres ← val.value (text "resources") .ok (.obj [])
  let resources ← loadResources jres
  let campLevels ← val.value (text "campLevels") loadCampLevels ∅
  .ok ⟨password, uuid, resources, campLevels⟩

/-- Read the accounts of a parsed document. -/
def loadAccounts (top : Json) : Except Exn Accounts := do
  let jacc ← top.value (text "accounts") .ok (.obj [])
  jacc.items.foldlM (fun accounts entry ↦ do
    let acc ← loadAccount entry.2
    .ok (accounts.insert entry.1 acc)) ∅

/-- `load`: no file gives an empty store. -/
def load (lib : JsonLib) : Option Bytes → Except Exn Accounts
  | none => .ok ∅
  | some content => do
      let top ← lib.extract content
      loadAccounts top

/-! ## Saving -/

/-- The levels as a JSON object, inserted in the order of the `std::map`. -/
def campLevelsJson (campLevels : SortedMap Bytes Int32) : Json :=
  .obj (Items.insertAll (campLevels.items.map fun entry ↦ (entry.1, .num entry.2.toInt)))

def resourcesJson (resources : Resources) : Json :=
  .obj (Items.insertAll [
    (text "wood", .num resources.wood.toNat),
    (text "food", .num resources.food.toNat),
    (text "iron", .num resources.iron.toNat)])

def accountJson (acc : Account) : Json :=
  .obj (Items.insertAll [
    (text "password", .str acc.password),
    (text "uuid", .str acc.uuid),
    (text "resources", resourcesJson acc.resources),
    (text "campLevels", campLevelsJson acc.campLevels)])

/-- The document written for the accounts of a range, in the order of the range. -/
def documentOf (accounts : List (Bytes × Account)) : Json :=
  .obj (Items.insertAll [(text "accounts",
    .obj (Items.insertAll (accounts.map fun entry ↦ (entry.1, accountJson entry.2))))])

/-- The document of a store. The order in which the unordered map is walked does not matter, see
`documentOf_perm`. -/
def document (accounts : Accounts) : Json := documentOf accounts.items

/-- The complete text of a save. -/
def serialization (lib : JsonLib) (accounts : Accounts) : Except Exn Bytes :=
  (lib.dumpIndent 2 (document accounts)).map fun dumped ↦ dumped ++ [newline]

/-- The rename that ends a save. -/
def rename (io : SaveIO) (files : Files) : Files × Outcome Unit :=
  match files.tmp with
  | none => (files, .threw .filesystemError)
  | some content =>
      if io.renames then
        (⟨some content, none⟩, if io.stop = some .renamed then .died else .returned ())
      else (files, .threw .filesystemError)

/-- `std::ofstream out(tmp)` creates or truncates the file; nothing happens when the open fails. -/
def openTmp (io : SaveIO) (files : Files) : Files :=
  if io.opens then { files with tmp := some [] } else files

/-- The text streamed into the file until the stream is closed; a failed stream ignores it. -/
def writeTmp (io : SaveIO) (content : Bytes) (files : Files) : Files :=
  if io.opens then { files with tmp := some (io.reaching content) } else files

/-- `save`: the stream swallows a failed open and a short write, `dump` and `rename` throw. -/
def save (lib : JsonLib) (accounts : Accounts) (io : SaveIO) (files : Files) :
    Files × Outcome Unit :=
  if io.stop = some .start then (files, .died)
  else if io.stop = some .opened then (openTmp io files, .died)
  else
    match serialization lib accounts with
    | .error exception => (openTmp io files, .threw exception)
    | .ok content =>
        if io.stop = some .written then (writeTmp io content (openTmp io files), .died)
        else rename io (writeTmp io content (openTmp io files))

/-- Two 64-bit draws in hexadecimal. -/
def generateUuid (draw : UInt64 × UInt64) : Bytes := hex16 draw.1 ++ hex16 draw.2

/-- The search over the accounts for the first one with a uuid, in an iteration order. -/
def scan (accounts : Accounts) (order : List Bytes) (uuid : Bytes) : Option (Bytes × Account) :=
  order.findSome? fun user ↦
    match accounts.find user with
    | some acc => if acc.uuid = uuid then some (user, acc) else none
    | none => none

def uuidNotFound (uuid : Bytes) : Exn := .runtimeError (text "UUID not found: " ++ uuid)

/-- Every account is still there, under the same username, with its uuid and its password. -/
def Kept (before after : Bytes → Option Account) : Prop :=
  ∀ username acc, before username = some acc →
    ∃ acc', after username = some acc' ∧ acc'.uuid = acc.uuid ∧ acc'.password = acc.password

theorem Kept.refl (accounts : Bytes → Option Account) : Kept accounts accounts :=
  fun _ acc hacc ↦ ⟨acc, hacc, rfl, rfl⟩

theorem Kept.trans {first second third : Bytes → Option Account} (h : Kept first second)
    (h' : Kept second third) : Kept first third := by
  intro username acc hacc
  obtain ⟨acc', hacc', huuid, hpassword⟩ := h username acc hacc
  obtain ⟨acc'', hacc'', huuid', hpassword'⟩ := h' username acc' hacc'
  exact ⟨acc'', hacc'', huuid'.trans huuid, hpassword'.trans hpassword⟩

/-- Writing an account keeps all others, and itself when its uuid and password stay. -/
theorem kept_insert {accounts : Accounts} {user : Bytes} {written : Account}
    (h : ∀ acc, accounts.find user = some acc →
      written.uuid = acc.uuid ∧ written.password = acc.password) :
    Kept accounts.find (accounts.insert user written).find := by
  intro username acc hacc
  by_cases husername : user = username
  · subst husername
    exact ⟨written, SortedMap.find_insert_self .., h acc hacc⟩
  · exact ⟨acc, by rw [SortedMap.find_insert_of_ne _ husername, hacc], rfl, rfl⟩

theorem scan_eq_some {accounts : Accounts} {order : List Bytes} {uuid user : Bytes} {acc : Account}
    (h : scan accounts order uuid = some (user, acc)) :
    accounts.find user = some acc ∧ acc.uuid = uuid := by
  obtain ⟨other, _, hother⟩ := List.exists_of_findSome?_eq_some h
  split at hother
  · next found hfound =>
    split at hother
    · next huuid =>
      cases hother
      exact ⟨hfound, huuid⟩
    · cases hother
  · cases hother

end JsonDB

/-! ## The store -/

structure JsonDB where
  accounts : Accounts := ∅
  files : Files := {}
deriving DecidableEq

namespace JsonDB

/-- The constructor. -/
def new (lib : JsonLib) (files : Files) : Except Exn JsonDB :=
  (load lib files.target).map fun accounts ↦ ⟨accounts, files⟩

def userExists (db : JsonDB) (username : Bytes) : Bool := (db.accounts.find username).isSome

def verifyUser (db : JsonDB) (username password : Bytes) : Bool :=
  match db.accounts.find username with
  | some acc => acc.password = password
  | none => false

def getUser (db : JsonDB) (username password : Bytes) : Except Exn Bytes :=
  match db.accounts.find username with
  | none => .error (.runtimeError (text "User not found: " ++ username))
  | some acc =>
      if acc.password ≠ password then
        .error (.runtimeError (text "Invalid password for " ++ username))
      else .ok acc.uuid

/-- Store a new content and save it; the content stays in memory when the save throws. -/
def commit (lib : JsonLib) (db : JsonDB) (accounts : Accounts) (io : SaveIO) :
    JsonDB × Outcome Unit :=
  let saved := save lib accounts io db.files
  (⟨accounts, saved.1⟩, saved.2)

def addUser (lib : JsonLib) (db : JsonDB) (username password : Bytes) (draw : UInt64 × UInt64)
    (io : SaveIO) : JsonDB × Outcome Bytes :=
  if (db.accounts.find username).isSome then
    (db, .threw (.runtimeError (text "User already exists: " ++ username)))
  else
    let acc : Account := { password := password, uuid := generateUuid draw }
    let saved := commit lib db (db.accounts.insert username acc) io
    (saved.1, saved.2.map fun _ ↦ acc.uuid)

/-- The getters by uuid: a member of the first account found, or an exception. -/
def readAccount {α : Type} (db : JsonDB) (order : List Bytes) (uuid : Bytes) (get : Account → α) :
    Except Exn α :=
  match scan db.accounts order uuid with
  | some (_, acc) => .ok (get acc)
  | none => .error (uuidNotFound uuid)

/-- The setters by uuid: change the first account found and save, or throw. -/
def modifyAccount (lib : JsonLib) (db : JsonDB) (order : List Bytes) (uuid : Bytes)
    (change : Account → Account) (io : SaveIO) : JsonDB × Outcome Unit :=
  match scan db.accounts order uuid with
  | some (user, acc) => commit lib db (db.accounts.insert user (change acc)) io
  | none => (db, .threw (uuidNotFound uuid))

def getResources (db : JsonDB) (order : List Bytes) (uuid : Bytes) : Except Exn Resources :=
  db.readAccount order uuid Account.resources

def updateResources (lib : JsonLib) (db : JsonDB) (order : List Bytes) (uuid : Bytes)
    (r : Resources) (io : SaveIO) : JsonDB × Outcome Unit :=
  modifyAccount lib db order uuid (fun acc ↦ { acc with resources := r }) io

def getCampLevels (db : JsonDB) (order : List Bytes) (uuid : Bytes) :
    Except Exn (SortedMap Bytes Int32) :=
  db.readAccount order uuid Account.campLevels

def getCampLevel (db : JsonDB) (order : List Bytes) (uuid camp : Bytes) : Except Exn Int32 := do
  let levels ← db.getCampLevels order uuid
  match levels.find camp with
  | some level => .ok level
  | none => .ok 0

def setCampLevel (lib : JsonLib) (db : JsonDB) (order : List Bytes) (uuid camp : Bytes)
    (level : Int32) (io : SaveIO) : JsonDB × Outcome Unit :=
  modifyAccount lib db order uuid
    (fun acc ↦ { acc with campLevels := acc.campLevels.insert camp level }) io

/-! ## Whatever becomes of the file

The content in memory does not depend on the outcomes of the file operations. -/

theorem rename_ne_crashed (io : SaveIO) (files : Files) : (rename io files).2 ≠ .crashed := by
  unfold rename
  split
  · simp
  split
  · dsimp only
    split <;> simp
  · simp

theorem save_ne_crashed (lib : JsonLib) (accounts : Accounts) (io : SaveIO) (files : Files) :
    (save lib accounts io files).2 ≠ .crashed := by
  unfold save
  split
  · simp
  split
  · simp
  split
  · simp
  split
  · simp
  · exact rename_ne_crashed _ _

theorem addUser_ne_crashed (lib : JsonLib) (db : JsonDB) (username password : Bytes)
    (draw : UInt64 × UInt64) (io : SaveIO) :
    (addUser lib db username password draw io).2 ≠ .crashed := by
  unfold addUser
  split
  · simp
  · exact Outcome.map_ne_crashed _ (save_ne_crashed lib _ io _)

/-- A new account is in memory whether or not it could be saved. -/
theorem addUser_accounts (lib : JsonLib) (db : JsonDB) {username : Bytes} (password : Bytes)
    (draw : UInt64 × UInt64) (io : SaveIO) (h : db.accounts.find username = none) :
    (addUser lib db username password draw io).1.accounts =
      db.accounts.insert username { password := password, uuid := generateUuid draw } := by
  rw [addUser, h]
  rfl

theorem modifyAccount_ne_crashed (lib : JsonLib) (db : JsonDB) (order : List Bytes) (uuid : Bytes)
    (change : Account → Account) (io : SaveIO) :
    (modifyAccount lib db order uuid change io).2 ≠ .crashed := by
  unfold modifyAccount
  split
  · exact save_ne_crashed lib _ io _
  · simp

/-- Changing an account without its uuid and password keeps the accounts. -/
theorem modifyAccount_kept (lib : JsonLib) (db : JsonDB) (order : List Bytes) (uuid : Bytes)
    (change : Account → Account)
    (h : ∀ acc, (change acc).uuid = acc.uuid ∧ (change acc).password = acc.password)
    (io : SaveIO) :
    Kept db.accounts.find (modifyAccount lib db order uuid change io).1.accounts.find := by
  unfold modifyAccount
  split
  · next user found hscan =>
    refine kept_insert fun acc hacc ↦ ?_
    cases (scan_eq_some hscan).1.symm.trans hacc
    exact h found
  · exact Kept.refl _

end JsonDB

end NetPixeld
