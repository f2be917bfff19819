import NetPixeld.Server.Authentication
import NetPixeld.Server.Mutators

/-!
# Accounts behind sessions

What holds of the store of a running server, whatever became of its saves: every string in it is
UTF-8, since it was loaded or parsed from JSON, and every session that is logged in has an account
with its uuid.
-/

namespace NetPixeld.Server

structure Enrolled (server : Server) : Prop where
  valid : JsonDB.Valid server.db.accounts
  account : ∀ index session, server.object index = some session → session.uuid ≠ [] →
    ∃ username acc, server.db.accounts.find username = some acc ∧ acc.uuid = session.uuid

/-! ## Credentials -/

theorem credentials_eq_ok_iff {msg : Protocol.Message} {user pass : Bytes} :
    credentials msg = .ok (user, pass) ↔ ∃ members, msg.payload = .obj members ∧
      Items.find (text "id") members = some (.str user) ∧
      Items.find (text "password") members = some (.str pass) := by
  have hfield : ∀ (key value : Bytes),
      (∃ found, msg.payload.atKey key = .ok found ∧ found.getString = .ok value) ↔
        ∃ members, msg.payload = .obj members ∧ Items.find key members = some (.str value) := by
    intro key value
    cases hpayload : msg.payload with
    | obj members =>
      simp only [Json.atKey, Json.obj.injEq, exists_eq_left']
      cases Items.find key members with
      | none => simp
      | some found => cases found <;> simp [Json.getString]
    | null | bool _ | num _ | float _ | str _ | arr _ => simp [Json.atKey]
  unfold credentials
  constructor
  · intro h
    obtain ⟨found, hfound, h⟩ := bind_eq_ok.mp h
    obtain ⟨user', huser, h⟩ := bind_eq_ok.mp h
    obtain ⟨found', hfound', h⟩ := bind_eq_ok.mp h
    obtain ⟨pass', hpass, h⟩ := bind_eq_ok.mp h
    cases h
    obtain ⟨members, hmembers, hid⟩ := (hfield (text "id") user).mp ⟨found, hfound, huser⟩
    obtain ⟨members', hmembers', hpassword⟩ :=
      (hfield (text "password") pass).mp ⟨found', hfound', hpass⟩
    cases hmembers.symm.trans hmembers'
    exact ⟨members, hmembers, hid, hpassword⟩
  · rintro ⟨members, hmembers, hid, hpassword⟩
    simp only [hmembers, Json.atKey, hid, hpassword]
    rfl

/-- The credentials of a parsed line are UTF-8. -/
theorem Requests.valid {lib : JsonLib} (hlib : lib.Lawful) {line user pass : Bytes}
    (h : Requests lib line user pass) : Utf8.Valid user ∧ Utf8.Valid pass := by
  obtain ⟨msg, hread, _, hcredentials⟩ := h
  have hwellFormed := (Protocol.Message.wellFormed_of_parse hlib hread).2
  obtain ⟨members, hmembers, hid, hpassword⟩ := credentials_eq_ok_iff.mp hcredentials
  rw [hmembers] at hwellFormed
  exact ⟨Json.wellFormed_find hwellFormed.2 hid, Json.wellFormed_find hwellFormed.2 hpassword⟩

/-! ## The store -/

section Store

variable {lib : JsonLib} {db : JsonDB}

theorem login_valid {user pass : Bytes} (hvalid : JsonDB.Valid db.accounts)
    (huser : Utf8.Valid user) (hpass : Utf8.Valid pass) (draw : UInt64 × UInt64) (io : SaveIO) :
    JsonDB.Valid (login lib db user pass draw io).1.accounts := by
  unfold login JsonDB.userExists
  cases hfind : db.accounts.find user with
  | some acc =>
    simp only [Option.isSome_some, if_true]
    split
    · exact hvalid
    · exact hvalid
  | none =>
    simp only [Option.isSome_none, Bool.false_eq_true, if_false]
    rw [db.addUser_accounts lib pass draw io hfind]
    exact JsonDB.valid_insert hvalid ⟨huser, hpass, JsonDB.generateUuid_valid draw, nofun⟩

theorem updateResources_valid (hvalid : JsonDB.Valid db.accounts) (walk : List Bytes)
    (uuid : Bytes) (pool : Resources) (io : SaveIO) :
    JsonDB.Valid (db.updateResources lib walk uuid pool io).1.accounts := by
  unfold JsonDB.updateResources JsonDB.modifyAccount
  split
  · next user acc hscan =>
    have hacc := hvalid user acc (JsonDB.scan_eq_some hscan).1
    exact JsonDB.valid_insert hvalid ⟨hacc.username, hacc.password, hacc.uuid, hacc.camps⟩
  · exact hvalid

end Store

/-! ## Steps -/

theorem Enrolled.of_objects {server next : Server} (h : server.Enrolled)
    (hvalid : JsonDB.Valid next.db.accounts)
    (hkept : JsonDB.Kept server.db.accounts.find next.db.accounts.find)
    (hobjects : ∀ index session', next.object index = some session' → session'.uuid ≠ [] →
      (∃ session, server.object index = some session ∧ session'.uuid = session.uuid) ∨
        ∃ username acc, next.db.accounts.find username = some acc ∧ acc.uuid = session'.uuid) :
    next.Enrolled := by
  refine ⟨hvalid, fun index session' hobject' hne ↦ ?_⟩
  rcases hobjects index session' hobject' hne with ⟨session, hobject, huuid⟩ | haccount
  · rw [huuid] at hne ⊢
    obtain ⟨username, acc, hfind, heq⟩ := h.account index session hobject hne
    obtain ⟨acc', hfind', heq', _⟩ := hkept username acc hfind
    exact ⟨username, acc', hfind', heq'.trans heq⟩
  · exact haccount

/-- Only the objects and the store matter. -/
theorem Enrolled.same {server next : Server} (h : server.Enrolled)
    (hobjects : next.objects = server.objects) (hdb : next.db = server.db) : next.Enrolled := by
  constructor
  · rw [hdb]
    exact h.valid
  · intro index session hobject hne
    rw [object, hobjects] at hobject
    rw [hdb]
    exact h.account index session hobject hne

/-- Changing a session object without its uuid. -/
theorem Enrolled.update {server : Server} (h : server.Enrolled) {index : ℕ}
    {change : Session → Session}
    (hchange : ∀ session, server.object index = some session →
      (change session).uuid = session.uuid) : (server.update index change).Enrolled := by
  refine h.of_objects h.valid (.refl _) fun other session' hobject' _ ↦ Or.inl ?_
  rw [object_update] at hobject'
  split at hobject'
  · next heq =>
    subst heq
    obtain ⟨session, hobject, rfl⟩ := Option.map_eq_some_iff.mp hobject'
    exact ⟨session, hobject, hchange session hobject⟩
  · exact ⟨session', hobject', rfl⟩

theorem Enrolled.database {server : Server} (h : server.Enrolled) {db : JsonDB}
    (hvalid : JsonDB.Valid db.accounts)
    (hkept : JsonDB.Kept server.db.accounts.find db.accounts.find) :
    ({ server with db := db } : Server).Enrolled :=
  h.of_objects hvalid hkept fun _ session hobject _ ↦ Or.inl ⟨session, hobject, rfl⟩

/-- Logging a session in with the uuid of an account. -/
theorem Enrolled.setUUID {server : Server} (h : server.Enrolled) (index : ℕ) {username : Bytes}
    {acc : Account} (hfind : server.db.accounts.find username = some acc) :
    (server.update index (Session.setUUID acc.uuid)).Enrolled := by
  refine h.of_objects h.valid (.refl _) fun other session' hobject' _ ↦ ?_
  rw [object_update] at hobject'
  split at hobject'
  · obtain ⟨session, _, rfl⟩ := Option.map_eq_some_iff.mp hobject'
    exact Or.inr ⟨username, acc, hfind, rfl⟩
  · exact Or.inl ⟨session', hobject', rfl⟩

theorem Enrolled.handled {lib : JsonLib} (hlib : lib.Lawful) {server : Server}
    (h : server.Enrolled) {clientId : UInt8} {line : Bytes} {draw : UInt64 × UInt64} {io : SaveIO}
    {result : Server × Outcome Unit} (hhandled : Handled lib server clientId line draw io result) :
    result.1.Enrolled := by
  have hdatabase : ∀ {user pass}, Requests lib line user pass →
      ({ server with db := (login lib server.db user pass draw io).1 } : Server).Enrolled := by
    intro user pass hrequest
    obtain ⟨huser, hpass⟩ := hrequest.valid hlib
    exact h.database (login_valid h.valid huser hpass draw io)
      (login_kept lib server.db _ _ draw io)
  cases hhandled with
  | ignored => exact h
  | refused hrequest => exact hdatabase hrequest
  | unregistered hrequest => exact (hdatabase hrequest).same rfl rfl
  | null hrequest => exact hdatabase hrequest
  | unsent hrequest hlogin =>
    obtain ⟨acc, hfind, _, rfl⟩ := login_account hlogin
    exact (hdatabase hrequest).setUUID _ hfind
  | answered hrequest hlogin =>
    obtain ⟨acc, hfind, _, rfl⟩ := login_account hlogin
    exact ((hdatabase hrequest).setUUID _ hfind).update fun _ _ ↦ rfl

theorem Enrolled.served {lib : JsonLib} {server : Server} (h : server.Enrolled)
    {walk : List Bytes} {io : SaveIO} {clientId : UInt8} {result : Server × Outcome Unit}
    (hserved : Served lib server walk io clientId result) : result.1.Enrolled := by
  have hcollected : ∀ uuid pool, (server.collected lib walk io clientId uuid pool).Enrolled :=
    fun uuid pool ↦ (h.database (updateResources_valid h.valid walk uuid pool io)
      (JsonDB.modifyAccount_kept lib server.db walk uuid
        (fun acc ↦ { acc with resources := pool }) (fun _ ↦ ⟨rfl, rfl⟩) io)).same rfl rfl
  cases hserved with
  | idle | broken | unknown => exact h
  | unsaved => exact hcollected _ _
  | unsent => exact (hcollected _ _).same rfl rfl
  | updated =>
    refine Enrolled.update ?_ fun _ _ ↦ rfl
    exact (hcollected _ _).same rfl rfl

theorem step_enrolled {lib : JsonLib} (hlib : lib.Lawful) {server next : Server} {event : Event}
    (h : server.Enrolled) (hstep : server.step lib event = some next) : next.Enrolled := by
  refine step_invariant (fun _ _ ↦ True) ?_ ?_ ?_ ?_ ?_ ?_ h trivial hstep
  · exact fun _ _ _ h ↦ h.same rfl rfl
  · intro server serialized h _
    refine h.of_objects h.valid (.refl _) fun index session hobject hne ↦ ?_
    rw [object_register] at hobject
    split at hobject
    · cases hobject
      exact absurd rfl hne
    · exact Or.inl ⟨session, hobject, rfl⟩
  · intro server index before after h hobject hsame
    refine h.update fun session hsession ↦ ?_
    cases hobject.symm.trans hsession
    exact hsame.uuid
  · exact fun h _ ↦ h.same rfl rfl
  · intro server index draw io before after line result h _ hobject hline hhandled
    have hread : (server.update index fun _ ↦ after).Enrolled := by
      refine h.update fun session hsession ↦ ?_
      cases hobject.symm.trans hsession
      exact (Session.takeLine_same hline).uuid
    have hrecorded : ((server.update index fun _ ↦ after).record (.received index line)).Enrolled :=
      hread.same rfl rfl
    exact hrecorded.handled hlib hhandled
  · intro server order walk io h _ _ status _
    refine serveAll_rule (fun _ next ↦ next.Enrolled)
      (fun result ↦ ({ result.1 with status := status } : Server).Enrolled) ?_ ?_ h
    · exact fun _ h ↦ h.same rfl rfl
    · intro clientId rest next result h hserved
      have hserved := h.served hserved
      split
      · exact hserved
      · exact hserved.same rfl rfl

/-- The state of every run. -/
theorem enrolled_run {lib : JsonLib} (hlib : lib.Lawful) {files : Files} {server final : Server}
    (hstart : start lib files = .ok server) {events : List Event}
    (hrun : Transition.run (step lib) server events = some final) : final.Enrolled := by
  refine Transition.invariant_run (step_enrolled hlib) ?_ hrun
  obtain ⟨db, hdb, rfl⟩ := map_eq_ok.mp hstart
  obtain ⟨accounts, hload, rfl⟩ := map_eq_ok.mp hdb
  exact ⟨JsonDB.load_valid hlib hload, fun index session hobject ↦ by cases hobject⟩

end NetPixeld.Server
