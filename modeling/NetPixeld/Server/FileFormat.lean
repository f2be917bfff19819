import NetPixeld.Server.JsonDB

/-!
# The account file

`load` and `save` are two halves of one format. Every store whose strings are UTF-8 has a
serialization, and loading it gives exactly the store back. The walk over the unordered map leaves
no trace in the text.
-/

namespace NetPixeld.JsonDB

/-! ## Stores that can be saved -/

/-- Every string of an account is UTF-8. -/
structure AccountValid (username : Bytes) (acc : Account) : Prop where
  username : Utf8.Valid username
  password : Utf8.Valid acc.password
  uuid : Utf8.Valid acc.uuid
  camps : ∀ camp level, acc.campLevels.find camp = some level → Utf8.Valid camp

/-- Every string of a store is UTF-8. -/
def Valid (accounts : Accounts) : Prop :=
  ∀ username acc, accounts.find username = some acc → AccountValid username acc

theorem valid_empty : Valid ∅ := by
  intro username acc h
  cases h

theorem valid_insert {accounts : Accounts} {username : Bytes} {acc : Account}
    (h : Valid accounts) (hacc : AccountValid username acc) :
    Valid (accounts.insert username acc) := by
  intro other found hfound
  rw [SortedMap.find_insert] at hfound
  split at hfound
  · next heq =>
    subst heq
    cases hfound
    exact hacc
  · exact h other found hfound

theorem generateUuid_valid (draw : UInt64 × UInt64) : Utf8.Valid (generateUuid draw) := by
  apply Utf8.valid_of_ascii
  intro byte hbyte
  rcases List.mem_append.mp hbyte with hbyte | hbyte
  · exact hex16_ascii hbyte
  · exact hex16_ascii hbyte

/-! ## The document is well formed -/

theorem wellFormedMembers_map {β : Type} (encode : β → Json) {items : List (Bytes × β)}
    (h : ∀ entry ∈ items, Utf8.Valid entry.1 ∧ (encode entry.2).WellFormed) :
    Json.WellFormedMembers (items.map fun entry ↦ (entry.1, encode entry.2)) := by
  rw [Json.wellFormedMembers_iff]
  intro member hmember
  obtain ⟨entry, hentry, rfl⟩ := List.mem_map.mp hmember
  exact h entry hentry

theorem wellFormed_campLevelsJson {campLevels : SortedMap Bytes Int32}
    (h : ∀ camp level, campLevels.find camp = some level → Utf8.Valid camp) :
    (campLevelsJson campLevels).WellFormed := by
  apply Json.wellFormed_obj_insertAll
  apply wellFormedMembers_map (fun level : Int32 ↦ Json.num level.toInt)
  rintro ⟨camp, level⟩ hentry
  exact ⟨h camp level (SortedMap.find_eq_some_iff.mpr hentry), Json.wellFormed_num_int32 level⟩

theorem wellFormed_resourcesJson (resources : Resources) : (resourcesJson resources).WellFormed :=
  Json.wellFormed_obj_insertAll ⟨Utf8.valid_text (by decide),
    Json.wellFormed_num_of_lt resources.wood.toNat_lt, Utf8.valid_text (by decide),
    Json.wellFormed_num_of_lt resources.food.toNat_lt, Utf8.valid_text (by decide),
    Json.wellFormed_num_of_lt resources.iron.toNat_lt, trivial⟩

theorem wellFormed_accountJson {username : Bytes} {acc : Account} (h : AccountValid username acc) :
    (accountJson acc).WellFormed :=
  Json.wellFormed_obj_insertAll ⟨Utf8.valid_text (by decide), h.password,
    Utf8.valid_text (by decide), h.uuid, Utf8.valid_text (by decide),
    wellFormed_resourcesJson acc.resources, Utf8.valid_text (by decide),
    wellFormed_campLevelsJson h.camps, trivial⟩

theorem wellFormed_document {accounts : Accounts} (h : Valid accounts) :
    (document accounts).WellFormed := by
  refine Json.wellFormed_obj_insertAll ⟨Utf8.valid_text (by decide), ?_, trivial⟩
  apply Json.wellFormed_obj_insertAll
  apply wellFormedMembers_map accountJson
  rintro ⟨username, acc⟩ hentry
  have hvalid := h username acc (SortedMap.find_eq_some_iff.mpr hentry)
  exact ⟨hvalid.username, wellFormed_accountJson hvalid⟩

/-- The walk over the unordered map may visit the accounts in any order. -/
theorem documentOf_perm {accounts : Accounts} {walk : List (Bytes × Account)}
    (h : accounts.items.Perm walk) : documentOf walk = document accounts := by
  have hnodup : ((accounts.items.map fun entry ↦ (entry.1, accountJson entry.2)).map
      Prod.fst).Nodup := by
    rw [List.map_map]
    exact accounts.sorted.nodup
  rw [document, documentOf, documentOf, Items.insertAll_perm hnodup (h.map _)]

/-! ## Only valid stores have a serialization -/

theorem valid_of_serialization {lib : JsonLib} {accounts : Accounts} {content : Bytes}
    (h : serialization lib accounts = .ok content) : Valid accounts := by
  obtain ⟨dumped, hdumped, _⟩ := map_eq_ok.mp h
  have htop := Json.dumpable_of_insertAll [(text "accounts", _)] (by simp)
    ⟨0, dumped, hdumped⟩ _ (List.mem_singleton.mpr rfl)
  have hnodup : ((accounts.items.map fun entry ↦ (entry.1, accountJson entry.2)).map
      Prod.fst).Nodup := by
    rw [List.map_map]
    exact accounts.sorted.nodup
  have haccounts := Json.dumpable_of_insertAll _ hnodup htop.2
  intro username acc hfind
  have hentry : (username, accountJson acc) ∈
      accounts.items.map fun entry ↦ (entry.1, accountJson entry.2) :=
    List.mem_map.mpr ⟨(username, acc), SortedMap.find_eq_some_iff.mp hfind, rfl⟩
  obtain ⟨husername, hacc⟩ := haccounts _ hentry
  have hnames : [text "password", text "uuid", text "resources", text "campLevels"].Nodup := by
    decide
  have hmembers := Json.dumpable_of_insertAll _ (show (List.map Prod.fst [
    (text "password", Json.str acc.password), (text "uuid", .str acc.uuid),
    (text "resources", resourcesJson acc.resources),
    (text "campLevels", campLevelsJson acc.campLevels)]).Nodup from hnames) hacc
  have hlevels := (hmembers (text "campLevels", campLevelsJson acc.campLevels) (by simp)).2
  have hkeys : ((acc.campLevels.items.map fun entry ↦
      (entry.1, Json.num entry.2.toInt)).map Prod.fst).Nodup := by
    rw [List.map_map]
    exact acc.campLevels.sorted.nodup
  refine ⟨husername, Json.valid_of_dumpable_str (hmembers (text "password", _) (by simp)).2,
    Json.valid_of_dumpable_str (hmembers (text "uuid", _) (by simp)).2, ?_⟩
  intro camp level hlevel
  have hcamp : (camp, Json.num level.toInt) ∈
      acc.campLevels.items.map fun entry ↦ (entry.1, Json.num entry.2.toInt) :=
    List.mem_map.mpr ⟨(camp, level), SortedMap.find_eq_some_iff.mp hlevel, rfl⟩
  exact (Json.dumpable_of_insertAll _ hkeys hlevels _ hcamp).1

/-! ## Loading what was saved -/

/-- Decoding the members of an object one after the other rebuilds the map they encode. -/
theorem foldlM_insert_decode {β : Type} {encode : β → Json} {decode : Json → Except Exn β}
    (items : List (Bytes × β)) (h : ∀ entry ∈ items, decode (encode entry.2) = .ok entry.2)
    (start : SortedMap Bytes β) :
    (items.map fun entry ↦ (entry.1, encode entry.2)).foldlM (fun collected entry ↦ do
        let value ← decode entry.2
        .ok (collected.insert entry.1 value)) start =
      (.ok (items.foldl (fun collected entry ↦ collected.insert entry.1 entry.2) start) :
        Except Exn _) := by
  induction items generalizing start with
  | nil => rfl
  | cons entry items ih =>
    have hentry := h entry (List.mem_cons_self ..)
    have hitems := ih (fun other hother ↦ h other (List.mem_cons_of_mem _ hother))
      (start.insert entry.1 entry.2)
    simp only [List.map_cons, List.foldlM_cons, List.foldl_cons, hentry]
    exact hitems

theorem foldl_insert_items {β : Type} (map : SortedMap Bytes β) :
    map.items.foldl (fun collected entry ↦ collected.insert entry.1 entry.2) ∅ = map := by
  have hitems : ∀ (pairs : List (Bytes × β)) (start : SortedMap Bytes β),
      (pairs.foldl (fun collected entry ↦ collected.insert entry.1 entry.2) start).items =
        pairs.foldl (fun collected pair ↦ Items.insert pair.1 pair.2 collected) start.items := by
    intro pairs
    induction pairs with
    | nil => exact fun _ ↦ rfl
    | cons pair pairs ih => exact fun start ↦ ih (start.insert pair.1 pair.2)
  refine SortedMap.ext fun key ↦ ?_
  rw [SortedMap.find, hitems]
  exact congrArg (Items.find key) (Items.insertAll_of_sorted map.sorted)

/-- The members of an encoded map are decoded to the map. -/
theorem foldlM_items_obj {β : Type} (encode : β → Json) {decode : Json → Except Exn β}
    (map : SortedMap Bytes β) (h : ∀ entry ∈ map.items, decode (encode entry.2) = .ok entry.2) :
    (Json.obj (Items.insertAll (map.items.map fun entry ↦ (entry.1, encode entry.2)))).items.foldlM
        (fun collected entry ↦ do
          let value ← decode entry.2
          .ok (collected.insert entry.1 value)) ∅ = (.ok map : Except Exn _) := by
  have hsorted : Items.Sorted (map.items.map fun entry ↦ (entry.1, encode entry.2)) := by
    rw [Items.Sorted, List.map_map]
    exact map.sorted
  rw [Items.insertAll_of_sorted hsorted, Json.items, foldlM_insert_decode map.items h,
    foldl_insert_items]

theorem loadCampLevels_campLevelsJson (campLevels : SortedMap Bytes Int32) :
    loadCampLevels (campLevelsJson campLevels) = .ok campLevels :=
  foldlM_items_obj (fun level : Int32 ↦ Json.num level.toInt) campLevels
    fun entry _ ↦ Json.getInt32_num entry.2

theorem loadResources_resourcesJson (resources : Resources) :
    loadResources (resourcesJson resources) = .ok resources := by
  have h₁ : text "food" ≠ text "wood" := by decide
  have h₂ : text "iron" ≠ text "wood" := by decide
  have h₃ : text "iron" ≠ text "food" := by decide
  simp only [loadResources, resourcesJson, Json.value, Items.insertAll, List.foldl_cons,
    List.foldl_nil, Items.find_insert, if_neg h₁, if_neg h₂, if_neg h₃, if_pos]
  simp only [bind, Except.bind, Json.getULL_num]

theorem loadAccount_accountJson (acc : Account) : loadAccount (accountJson acc) = .ok acc := by
  have h₁ : text "uuid" ≠ text "password" := by decide
  have h₂ : text "resources" ≠ text "password" := by decide
  have h₃ : text "campLevels" ≠ text "password" := by decide
  have h₄ : text "resources" ≠ text "uuid" := by decide
  have h₅ : text "campLevels" ≠ text "uuid" := by decide
  have h₆ : text "campLevels" ≠ text "resources" := by decide
  simp only [loadAccount, accountJson, Json.value, Items.insertAll, List.foldl_cons,
    List.foldl_nil, Items.find_insert, if_neg h₁, if_neg h₂, if_neg h₃, if_neg h₄, if_neg h₅,
    if_neg h₆, if_pos]
  simp only [bind, Except.bind, Json.getString_str, loadResources_resourcesJson,
    loadCampLevels_campLevelsJson]

/-- The format loses nothing. -/
theorem loadAccounts_document (accounts : Accounts) :
    loadAccounts (document accounts) = .ok accounts := by
  have haccounts := foldlM_items_obj accountJson accounts
    fun entry _ ↦ loadAccount_accountJson entry.2
  simp only [loadAccounts, document, documentOf, Json.value, Items.insertAll, List.foldl_cons,
    List.foldl_nil, Items.find_insert, if_pos, bind, Except.bind]
  exact haccounts

theorem serialization_ok (lib : JsonLib) {accounts : Accounts} (h : Valid accounts) :
    ∃ content, serialization lib accounts = .ok content := by
  obtain ⟨dumped, hdumped⟩ := lib.dumpIndent_ok 2 (wellFormed_document h)
  exact ⟨_, by rw [serialization, hdumped]; rfl⟩

/-- Loading the complete serialization of a store gives the store back. -/
theorem load_serialization {lib : JsonLib} (hlib : lib.Lawful) {accounts : Accounts}
    (h : Valid accounts) {content : Bytes} (hcontent : serialization lib accounts = .ok content) :
    load lib (some content) = .ok accounts := by
  obtain ⟨dumped, hdumped, rfl⟩ := map_eq_ok.mp hcontent
  rw [load, hlib.extract_dump (wellFormed_document h) hdumped]
  exact loadAccounts_document accounts

/-! ## What a loaded file contains -/

/-- Every entry of a map decoded from the members of a document comes from a member. -/
theorem foldlM_items_find {β : Type} {decode : Json → Except Exn β} {json : Json}
    {result : SortedMap Bytes β}
    (h : json.items.foldlM (fun collected entry ↦ do
      let value ← decode entry.2
      .ok (collected.insert entry.1 value)) ∅ = (.ok result : Except Exn _))
    {key : Bytes} {decoded : β} (hfind : result.find key = some decoded) :
    ∃ value, (key, value) ∈ json.items ∧ decode value = .ok decoded := by
  let decodes (map : SortedMap Bytes β) : Prop := ∀ key decoded, map.find key = some decoded →
    ∃ value, (key, value) ∈ json.items ∧ decode value = .ok decoded
  have hstep : ∀ (entries : List (Bytes × Json)) (start : SortedMap Bytes β),
      (∀ entry ∈ entries, entry ∈ json.items) → decodes start →
      entries.foldlM (fun collected entry ↦ do
        let value ← decode entry.2
        .ok (collected.insert entry.1 value)) start = (.ok result : Except Exn _) →
      decodes result := by
    intro entries
    induction entries with
    | nil =>
      rintro start _ hstart ⟨⟩
      exact hstart
    | cons entry entries ih =>
      intro start hentries hstart hresult
      obtain ⟨next, hnext, hrest⟩ := bind_eq_ok.mp hresult
      obtain ⟨value, hvalue, hinserted⟩ := bind_eq_ok.mp hnext
      cases hinserted
      refine ih _ (fun other hother ↦ hentries other (List.mem_cons_of_mem _ hother)) ?_ hrest
      intro other found hfind
      rw [SortedMap.find_insert] at hfind
      split at hfind
      · next heq =>
        cases hfind
        exact ⟨entry.2, heq ▸ hentries entry (List.mem_cons_self ..), hvalue⟩
      · exact hstart other found hfind
  exact hstep json.items ∅ (fun _ hentry ↦ hentry) (fun _ _ hfind ↦ by cases hfind) h key decoded
    hfind

theorem loadCampLevels_valid {json : Json} (hjson : json.WellFormed)
    {campLevels : SortedMap Bytes Int32} (h : loadCampLevels json = .ok campLevels) :
    ∀ camp level, campLevels.find camp = some level → Utf8.Valid camp := by
  intro camp level hfind
  obtain ⟨value, hentry, _⟩ := foldlM_items_find h hfind
  exact (Json.wellFormed_of_mem_items hjson hentry).1

theorem loadAccount_valid {username : Bytes} (husername : Utf8.Valid username) {val : Json}
    (hval : val.WellFormed) {acc : Account} (h : loadAccount val = .ok acc) :
    AccountValid username acc := by
  obtain ⟨password, hpassword, h⟩ := bind_eq_ok.mp h
  obtain ⟨uuid, huuid, h⟩ := bind_eq_ok.mp h
  obtain ⟨jres, _, h⟩ := bind_eq_ok.mp h
  obtain ⟨resources, _, h⟩ := bind_eq_ok.mp h
  obtain ⟨campLevels, hcamps, h⟩ := bind_eq_ok.mp h
  cases h
  refine ⟨husername, ?_, ?_, ?_⟩
  · exact Json.value_property hval Utf8.Valid Utf8.valid_nil
      (fun hfound hstring ↦ Json.getString_valid hfound hstring) hpassword
  · exact Json.value_property hval Utf8.Valid Utf8.valid_nil
      (fun hfound hstring ↦ Json.getString_valid hfound hstring) huuid
  · refine Json.value_property hval (fun levels : SortedMap Bytes Int32 ↦
      ∀ camp level, levels.find camp = some level → Utf8.Valid camp) ?_
      (fun hfound hlevels ↦ loadCampLevels_valid hfound hlevels) hcamps
    intro camp level hfind
    cases hfind

/-- Whatever file the store was loaded from, its strings are UTF-8. -/
theorem load_valid {lib : JsonLib} (hlib : lib.Lawful) {target : Option Bytes}
    {accounts : Accounts} (h : load lib target = .ok accounts) : Valid accounts := by
  cases target with
  | none =>
    cases h
    exact valid_empty
  | some content =>
    obtain ⟨top, htop, h⟩ := bind_eq_ok.mp h
    obtain ⟨jacc, hjacc, h⟩ := bind_eq_ok.mp h
    have hempty : (Json.obj []).WellFormed := ⟨List.Pairwise.nil, trivial⟩
    have hwellFormed : jacc.WellFormed :=
      Json.value_property (hlib.extract_wellFormed htop) Json.WellFormed hempty
        (fun hfound hok ↦ by cases hok; exact hfound) hjacc
    intro username acc hfind
    obtain ⟨val, hentry, hacc⟩ := foldlM_items_find h hfind
    obtain ⟨husername, hval⟩ := Json.wellFormed_of_mem_items hwellFormed hentry
    exact loadAccount_valid husername hval hacc

end NetPixeld.JsonDB
