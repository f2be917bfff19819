import NetPixeld.Server.Harvest
import NetPixeld.System.Timeline

/-!
# The books of the accounts

Over a whole run, whatever connections come and go, the totals stored for a uuid are the opening
totals of its account with one harvest more each time, and the account in memory has the last of
them. Nothing else about an account ever changes. A round of a tick reads an account and writes it
back, and a login only adds one; the uuids stay distinct as long as the draws are fresh.
-/

namespace NetPixeld

/-- The totals stored for a uuid, in that order. -/
def totalsOf (stores : List (Bytes × Resources)) (uuid : Bytes) : List Resources :=
  stores.filterMap fun entry ↦ if entry.1 = uuid then some entry.2 else none

@[simp]
theorem totalsOf_append_singleton (stores : List (Bytes × Resources)) (other uuid : Bytes)
    (pool : Resources) :
    totalsOf (stores ++ [(other, pool)]) uuid =
      totalsOf stores uuid ++ if other = uuid then [pool] else [] := by
  rw [totalsOf, List.filterMap_append, totalsOf]
  by_cases h : other = uuid <;> simp [h]

/-- An account as it was when the server started, or as a login created it. -/
def opening (first : Accounts) (username : Bytes) (acc : Account) : Account :=
  (first.find username).getD { password := acc.password, uuid := acc.uuid }

/-- The totals of an account add up. -/
structure Booked (first : Accounts) (stores : List (Bytes × Resources)) (username : Bytes)
    (acc : Account) : Prop where
  /-- One harvest for each of the stored totals, and nothing else. -/
  account : acc = { opening first username acc with
    resources := (opening first username acc).resources.gain (totalsOf stores acc.uuid).length }
  /-- Each of them is the one before it with one harvest more. -/
  totals : totalsOf stores acc.uuid = (List.range (totalsOf stores acc.uuid).length).map
    fun round ↦ (opening first username acc).resources.gain (round + 1)

/-- The books of a store. -/
structure Balanced (first accounts : Accounts) (stores : List (Bytes × Resources)) : Prop where
  distinct : JsonDB.Distinct accounts
  kept : ∀ username, first.find username ≠ none → accounts.find username ≠ none
  booked : ∀ username acc, accounts.find username = some acc → Booked first stores username acc
  /-- Totals are stored for accounts only. -/
  known : ∀ uuid, totalsOf stores uuid ≠ [] → JsonDB.HasUuid accounts uuid

namespace Balanced

variable {first accounts : Accounts} {stores : List (Bytes × Resources)}

theorem init (hdistinct : JsonDB.Distinct first) : Balanced first first [] := by
  refine ⟨hdistinct, fun _ h ↦ h, fun username acc hfind ↦ ?_, fun uuid h ↦ absurd rfl h⟩
  have hopening : opening first username acc = acc := by
    rw [opening, hfind]
    rfl
  refine ⟨?_, rfl⟩
  rw [hopening]
  exact congrArg (fun resources ↦ { acc with resources := resources })
    (Resources.gain_zero acc.resources).symm

/-- A login creates an account with a uuid of its own. -/
theorem register (h : Balanced first accounts stores) {username password uuid : Bytes}
    (hfind : accounts.find username = none) (hfresh : ¬JsonDB.HasUuid accounts uuid) :
    Balanced first (accounts.insert username { password := password, uuid := uuid }) stores := by
  have hnone : totalsOf stores uuid = [] := by
    by_contra hne
    exact hfresh (h.known uuid hne)
  have hfirst : first.find username = none := by
    by_contra hne
    exact h.kept username hne hfind
  constructor
  · refine JsonDB.distinct_insert_of_fresh h.distinct fun other found hfound huuid ↦ ?_
    exact hfresh ⟨other, found, hfound, huuid⟩
  · intro other hother
    rw [SortedMap.find_insert]
    split
    · exact Option.some_ne_none _
    · exact h.kept other hother
  · intro other acc hacc
    rw [SortedMap.find_insert] at hacc
    split at hacc
    · next heq =>
      subst heq
      cases hacc
      have hopening : opening first username { password := password, uuid := uuid } =
          { password := password, uuid := uuid } := by
        rw [opening, hfirst]
        rfl
      refine ⟨?_, ?_⟩
      · rw [hopening, hnone]
        rfl
      · rw [hnone]
        rfl
    · exact h.booked other acc hacc
  · intro other hother
    obtain ⟨user, acc, hacc, huuid⟩ := h.known other hother
    refine ⟨user, acc, ?_, huuid⟩
    rw [SortedMap.find_insert_of_ne, hacc]
    rintro rfl
    cases hfind.symm.trans hacc

/-- A round of a tick stores the totals of an account with one harvest more. -/
theorem harvest (h : Balanced first accounts stores) {username : Bytes} {acc : Account}
    (hfind : accounts.find username = some acc) :
    Balanced first
      (accounts.insert username { acc with resources := Server.harvest acc.resources })
      (stores ++ [(acc.uuid, Server.harvest acc.resources)]) := by
  constructor
  · exact JsonDB.distinct_insert_of_find h.distinct hfind rfl
  · intro other hother
    rw [SortedMap.find_insert]
    split
    · exact Option.some_ne_none _
    · exact h.kept other hother
  · intro other found hfound
    rw [SortedMap.find_insert] at hfound
    split at hfound
    · next heq =>
      subst heq
      cases hfound
      obtain ⟨haccount, htotals⟩ := h.booked username acc hfind
      have hopening : opening first username
          { acc with resources := Server.harvest acc.resources } = opening first username acc := rfl
      have hresources := congrArg Account.resources haccount
      dsimp only at hresources
      have hnext : Server.harvest acc.resources = (opening first username acc).resources.gain
          ((totalsOf stores acc.uuid).length + 1) := by
        rw [hresources, Server.harvest_gain]
      have hgrown : totalsOf (stores ++ [(acc.uuid, Server.harvest acc.resources)]) acc.uuid =
          totalsOf stores acc.uuid ++ [Server.harvest acc.resources] := by
        rw [totalsOf_append_singleton, if_pos rfl]
      refine ⟨?_, ?_⟩
      · rw [hopening]
        dsimp only
        rw [hgrown, List.length_append, List.length_singleton, ← hnext]
        exact congrArg (fun written : Account ↦
          { written with resources := Server.harvest acc.resources }) haccount
      · rw [hopening]
        dsimp only
        rw [hgrown, List.length_append, List.length_singleton, List.range_succ, List.map_append,
          ← htotals, List.map_singleton, ← hnext]
    · next hne =>
      have huuid : acc.uuid ≠ found.uuid :=
        fun heq ↦ hne (h.distinct username other acc found hfind hfound heq)
      have hsame : totalsOf (stores ++ [(acc.uuid, Server.harvest acc.resources)]) found.uuid =
          totalsOf stores found.uuid := by
        rw [totalsOf_append_singleton, if_neg huuid, List.append_nil]
      obtain ⟨haccount, htotals⟩ := h.booked other found hfound
      refine ⟨?_, ?_⟩
      · rw [hsame]
        exact haccount
      · rw [hsame]
        exact htotals
  · intro uuid huuid
    rw [totalsOf_append_singleton] at huuid
    have hown : JsonDB.HasUuid (accounts.insert username
        { acc with resources := Server.harvest acc.resources }) acc.uuid :=
      ⟨username, _, SortedMap.find_insert_self .., rfl⟩
    by_cases heq : acc.uuid = uuid
    · exact heq ▸ hown
    · rw [if_neg heq, List.append_nil] at huuid
      obtain ⟨other, found, hfound, hfounduuid⟩ := h.known uuid huuid
      refine ⟨other, found, ?_, hfounduuid⟩
      rw [SortedMap.find_insert_of_ne, hfound]
      rintro rfl
      cases hfind.symm.trans hfound
      exact heq hfounduuid

end Balanced

namespace Server

/-! ## One step -/

/-- A login leaves the accounts alone or adds one with the drawn uuid. -/
theorem login_accounts (lib : JsonLib) (db : JsonDB) (user pass : Bytes) (draw : UInt64 × UInt64)
    (io : SaveIO) :
    (login lib db user pass draw io).1.accounts = db.accounts ∨
      db.accounts.find user = none ∧ (login lib db user pass draw io).1.accounts =
        db.accounts.insert user { password := pass, uuid := JsonDB.generateUuid draw } := by
  unfold login JsonDB.userExists
  cases hfind : db.accounts.find user with
  | some acc =>
    left
    simp only [Option.isSome_some, if_true]
    split <;> rfl
  | none =>
    right
    exact ⟨rfl, db.addUser_accounts lib pass draw io hfind⟩

/-- A round of a tick that returns does nothing to the store, or stores one harvest more. -/
theorem serve_returned {lib : JsonLib} {server next : Server} {walk : List Bytes} {io : SaveIO}
    {clientId : UInt8} (h : server.serve lib walk io clientId = (next, .returned ())) :
    next.db.accounts = server.db.accounts ∧ next.stores = server.stores ∨
      ∃ username acc, server.db.accounts.find username = some acc ∧
        next.db.accounts = server.db.accounts.insert username
          { acc with resources := harvest acc.resources } ∧
        next.stores = server.stores ++ [(acc.uuid, harvest acc.resources)] := by
  unfold serve at h
  split at h
  · cases h
    exact Or.inl ⟨rfl, rfl⟩
  · cases h
  next index _ =>
  split at h
  · cases h
  next session _ =>
  split at h
  · cases h
    exact Or.inl ⟨rfl, rfl⟩
  split at h
  · cases h
  next pool hpool =>
  right
  unfold JsonDB.getResources JsonDB.readAccount at hpool
  split at hpool
  swap
  · cases hpool
  next username acc hscan =>
  cases hpool
  obtain ⟨hfind, huuid⟩ := JsonDB.scan_eq_some hscan
  obtain ⟨hstores, _⟩ := (serveAccount_stores h).resolve_left fun hfailed ↦ hfailed.2 rfl
  unfold serveAccount JsonDB.updateResources JsonDB.modifyAccount at h
  simp only [advanceCounter_db, hscan] at h
  split at h
  · unfold send at h
    split at h
    · cases h
      refine ⟨username, acc, hfind, rfl, ?_⟩
      rw [huuid]
      exact hstores
    · cases h
  · next hfailed => exact absurd (Prod.mk.inj h).2 hfailed

/-- The accounts of a store add up with what the ticks stored since an earlier moment, at which it
had the accounts `first` and the totals `since` were stored. -/
def BalancedSince (first : Accounts) (since : List (Bytes × Resources)) (server : Server) : Prop :=
  ∃ newer, server.stores = since ++ newer ∧ Balanced first server.db.accounts newer

/-- The accounts add up as long as the server runs. -/
def InBalance (first : Accounts) (since : List (Bytes × Resources)) (server : Server) : Prop :=
  server.status = .running → server.BalancedSince first since

section Since

variable {first : Accounts} {since : List (Bytes × Resources)}

theorem BalancedSince.same {server next : Server} (h : server.BalancedSince first since)
    (haccounts : next.db.accounts = server.db.accounts) (hstores : next.stores = server.stores) :
    next.BalancedSince first since := by
  obtain ⟨newer, hnewer, hbalanced⟩ := h
  rw [BalancedSince, haccounts, hstores]
  exact ⟨newer, hnewer, hbalanced⟩

theorem InBalance.same {server next : Server} (h : server.InBalance first since)
    (hstatus : next.status = .running → server.status = .running)
    (haccounts : next.db.accounts = server.db.accounts) (hstores : next.stores = server.stores) :
    next.InBalance first since :=
  fun hrunning ↦ (h (hstatus hrunning)).same haccounts hstores

theorem Handled.inBalance {lib : JsonLib} {server : Server} {clientId : UInt8}
    {line : Bytes} {draw : UInt64 × UInt64} {io : SaveIO} {result : Server × Outcome Unit}
    (h : server.InBalance first since)
    (hfresh : ¬JsonDB.HasUuid server.db.accounts (JsonDB.generateUuid draw))
    (hhandled : Handled lib server clientId line draw io result) :
    result.1.InBalance first since := by
  have hlogin : ∀ user pass,
      ({ server with db := (login lib server.db user pass draw io).1 } : Server).InBalance
        first since := by
    intro user pass hrunning
    obtain ⟨newer, hnewer, hbalanced⟩ := h hrunning
    refine ⟨newer, hnewer, ?_⟩
    change Balanced first (login lib server.db user pass draw io).1.accounts newer
    rcases login_accounts lib server.db user pass draw io with hsame | ⟨hfind, hadded⟩
    · rw [hsame]
      exact hbalanced
    · rw [hadded]
      exact hbalanced.register hfind hfresh
  cases hhandled with
  | ignored => exact h
  | refused => exact hlogin _ _
  | unregistered | null | unsent | answered => exact (hlogin _ _).same (fun h ↦ h) rfl rfl

/-- A tick that returns keeps the books. -/
theorem serveAll_balanced {lib : JsonLib} {walk : List Bytes}
    {io : UInt8 → SaveIO} {order : List UInt8} {server final : Server}
    (h : server.BalancedSince first since)
    (hreturned : serveAll lib walk io order server = (final, .returned ())) :
    final.BalancedSince first since := by
  induction order generalizing server with
  | nil =>
    cases hreturned
    exact h
  | cons clientId rest ih =>
    rw [serveAll] at hreturned
    split at hreturned
    · next next hserve =>
      refine ih ?_ hreturned
      rcases serve_returned hserve with ⟨haccounts, hstores⟩ |
        ⟨username, acc, hfind, haccounts, hstores⟩
      · exact h.same haccounts hstores
      · obtain ⟨newer, hnewer, hbalanced⟩ := h
        refine ⟨newer ++ [(acc.uuid, harvest acc.resources)], ?_, ?_⟩
        · rw [hstores, hnewer, List.append_assoc]
        · rw [haccounts]
          exact hbalanced.harvest hfind
    · next hfailed =>
      exact absurd hreturned (hfailed final)

/-- The uuid that a read draws is not in use. -/
def FreshDraw (server : Server) : Event → Prop
  | .readDone _ draw _ => ¬JsonDB.HasUuid server.db.accounts (JsonDB.generateUuid draw)
  | _ => True

instance (server : Server) (event : Event) : Decidable (FreshDraw server event) :=
  match event with
  | .readDone _ draw _ =>
      inferInstanceAs (Decidable ¬JsonDB.HasUuid server.db.accounts (JsonDB.generateUuid draw))
  | .accept | .acceptFailed | .receive _ _ | .readFailed _ | .strand _ | .writeDone _
  | .writeFailed _ | .tick _ _ _ | .timerCanceled => inferInstanceAs (Decidable True)

theorem step_inBalance {lib : JsonLib} {server next : Server} {event : Event}
    (h : server.InBalance first since) (hfresh : FreshDraw server event)
    (hstep : server.step lib event = some next) : next.InBalance first since := by
  refine step_invariant
    (fun server event ↦ server.status = .running ∧ FreshDraw server event) ?_ ?_ ?_ ?_ ?_ ?_ h
    ⟨(step_stepped hstep).1, hfresh⟩ hstep
  · exact fun _ _ hrunning h ↦ h.same (fun _ ↦ hrunning) rfl rfl
  · exact fun h _ ↦ h.same (fun h ↦ h) rfl (stores_of_log rfl rfl)
  · exact fun h _ _ ↦ h.same (fun h ↦ h) rfl rfl
  · exact fun h _ ↦ h.same (fun h ↦ h) rfl (stores_of_log rfl rfl)
  · intro server index draw io before after line result h hcondition hobject hline hhandled
    have hread : ((server.update index fun _ ↦ after).record (.received index line)).InBalance
        first since := h.same (fun h ↦ h) rfl (stores_of_log rfl rfl)
    exact hhandled.inBalance hread hcondition.2
  · intro server order walk io h hcondition _ status hstatus hrunning
    have hreturned : serveAll lib walk io order server =
        ((serveAll lib walk io order server).1, .returned ()) := Prod.ext rfl (hstatus hrunning)
    have hbalanced := serveAll_balanced (h hcondition.1) hreturned
    exact hbalanced

/-! ## Every run -/

/-- From any moment of a run on. -/
theorem run_inBalance {lib : JsonLib} {server final : Server}
    (hdistinct : JsonDB.Distinct server.db.accounts) {events : List Event}
    (hfresh : Transition.Always (step lib) FreshDraw server events)
    (hrun : Transition.run (step lib) server events = some final) :
    final.InBalance server.db.accounts server.stores := by
  have hinit : server.InBalance server.db.accounts server.stores :=
    fun _ ↦ ⟨[], (List.append_nil _).symm, Balanced.init hdistinct⟩
  exact Transition.invariant_run_of_always step_inBalance hinit hfresh hrun

end Since

/-- Along every run with fresh draws, for as long as the server runs, between any two moments
`middle` and `final` of it: the uuids are distinct, no account of the first moment is lost, and each
keeps its password, uuid and camp levels and has one harvest more for each total that was stored for
it in between, every one of them following from the last. An account that was created in between
started with nothing. The first moment can be the start of the server, or right behind a login. -/
theorem books_balanced {lib : JsonLib} {files : Files} {first middle final : Server}
    (hstart : start lib files = .ok first) (hdistinct : JsonDB.Distinct first.db.accounts)
    {before after : List Event}
    (hfresh : Transition.Always (step lib) FreshDraw first (before ++ after))
    (hmiddle : Transition.run (step lib) first before = some middle)
    (hrun : Transition.run (step lib) middle after = some final)
    (hrunning : final.status = .running) :
    Balanced first.db.accounts final.db.accounts final.stores ∧
      ∃ newer, final.stores = middle.stores ++ newer ∧
        Balanced middle.db.accounts final.db.accounts newer := by
  have hstores : first.stores = [] := by
    obtain ⟨db, _, rfl⟩ := map_eq_ok.mp hstart
    rfl
  have hbefore := Transition.always_of_append hfresh
  have hafter := Transition.always_behind hfresh hmiddle
  obtain ⟨_, _, hopened⟩ :=
    run_inBalance hdistinct hbefore hmiddle (running_of_run hrun hrunning)
  have hwhole : Transition.run (step lib) first (before ++ after) = some final :=
    Transition.run_append_eq_some.mpr ⟨middle, hmiddle, hrun⟩
  obtain ⟨all, hall, hbalanced⟩ := run_inBalance hdistinct hfresh hwhole hrunning
  refine ⟨?_, run_inBalance hopened.distinct hafter hrun hrunning⟩
  rw [hall, hstores]
  exact hbalanced

/-- An account from the file and one that a login creates; the ticks reach the second of them first
alone and then both. -/
theorem books_balanced_twice :
    let bob : Account :=
      { password := text "word", uuid := JsonDB.generateUuid (3, 4), resources := ⟨5, 6, 7⟩ }
    let opened : Accounts := (∅ : Accounts).insert (text "bob") bob
    let files := (JsonDB.save JsonLib.reference opened {} {}).1
    let first : Server := { db := ⟨opened, files⟩ }
    let login (username password : Bytes) : Bytes :=
      ((Protocol.loginRequest username password).serialize JsonLib.reference).toOption.getD []
    let before : List Event :=
      [.accept, .receive 0 (login (text "ana") (text "pass")), .readDone 0 (1, 2) {},
        .tick [1] [text "bob", text "ana"] fun _ ↦ {}]
    let after : List Event :=
      [.accept, .receive 1 (login (text "bob") (text "word")), .readDone 1 (5, 6) {},
        .tick [2, 1] [text "ana", text "bob"] fun _ ↦ {}]
    start JsonLib.reference files = .ok first ∧
      ∃ middle final, Transition.run (step JsonLib.reference) first before = some middle ∧
        Transition.run (step JsonLib.reference) middle after = some final ∧
        middle.stores = [(JsonDB.generateUuid (1, 2), ⟨10, 10, 10⟩)] ∧
        final.stores = [(JsonDB.generateUuid (1, 2), ⟨10, 10, 10⟩), (bob.uuid, ⟨15, 16, 17⟩),
          (JsonDB.generateUuid (1, 2), ⟨20, 20, 20⟩)] ∧
        Balanced first.db.accounts final.db.accounts final.stores ∧
        ∃ newer, final.stores = middle.stores ++ newer ∧
          Balanced middle.db.accounts final.db.accounts newer := by
  intro bob opened files first login before after
  have hstart : start JsonLib.reference files = .ok first := by
    have hnew : JsonDB.new JsonLib.reference files = .ok ⟨opened, files⟩ := by decide +kernel
    rw [start, hnew]
    rfl
  have hend : ((Transition.run (step JsonLib.reference) first before).bind fun middle ↦
      (Transition.run (step JsonLib.reference) middle after).map fun final ↦
        (middle.stores, final.status, final.stores)) =
      some ([(JsonDB.generateUuid (1, 2), ⟨10, 10, 10⟩)], .running,
        [(JsonDB.generateUuid (1, 2), ⟨10, 10, 10⟩), (bob.uuid, ⟨15, 16, 17⟩),
          (JsonDB.generateUuid (1, 2), ⟨20, 20, 20⟩)]) := by decide +kernel
  obtain ⟨middle, hmiddle, hend⟩ := Option.bind_eq_some_iff.mp hend
  obtain ⟨final, hrun, hfinal⟩ := Option.map_eq_some_iff.mp hend
  obtain ⟨hearlier, hfinal⟩ := Prod.mk.inj hfinal
  obtain ⟨hrunning, hstores⟩ := Prod.mk.inj hfinal
  have hdistinct : JsonDB.Distinct first.db.accounts := by decide +kernel
  have hfresh : Transition.Always (step JsonLib.reference) FreshDraw first (before ++ after) := by
    decide +kernel
  exact ⟨hstart, middle, final, hmiddle, hrun, hearlier, hstores,
    books_balanced hstart hdistinct hfresh hmiddle hrun hrunning⟩

end Server

end NetPixeld
