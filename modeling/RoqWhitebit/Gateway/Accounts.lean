import RoqWhitebit.Tools.Crypto
import RoqWhitebit.General.Emplace

/-!
# Accounts

The gateway starts by reading its configuration, entry after entry, and then makes one
account of each account entry it has kept.  Both can end the process: an entry of a kind
that is not supported, an account without its key or its secret.

`starts_iff` says which files the gateway starts with: the first entry of a name is the
one that counts, also where a later one would have been complete.  It holds in whatever
order the accounts are walked, which the container does not say.
-/

namespace RoqWhitebit.Gateway

open RoqWhitebit.General
open RoqWhitebit.Tools

/-- `server::config::Account`: the fields the gateway reads. -/
structure AccountEntry where
  name : String
  master : Bool
  login : String
  secret : String
  deriving DecidableEq

/-- An entry of the configuration file.  Users, symbols and rate limits are kept for
others and carry no account. -/
inductive ConfigEntry where
  | symbols
  | account (entry : AccountEntry)
  | user
  | rateLimit
  | requestTemplate (label : String)
  | unexpected (key : String)

/-- `Config`: the accounts by name, and the name of the master account. -/
structure Config where
  accounts : List (String × AccountEntry) := []
  masterAccount : String := ""

/-- `Account`: its name, and what its requests are signed with. -/
structure Account where
  name : String
  crypto : Crypto

/-! ## The code -/

namespace Config

/-- `Config::operator()` of an account -/
def onAccount (config : Config) (entry : AccountEntry) : Config where
  accounts := emplaceKey config.accounts entry.name entry
  masterAccount := if entry.master then entry.name else config.masterAccount

/-- The handler of one entry; the error is the text of `log::fatal`. -/
def onEntry (config : Config) : ConfigEntry → Except String Config
  | .account entry => .ok (config.onAccount entry)
  | .requestTemplate _ => .error "Unexpected: request templates not supported"
  | .symbols | .user | .rateLimit | .unexpected _ => .ok config

/-- `Reader::parse_file` hands over the entries one by one. -/
def read (config : Config) : List ConfigEntry → Except String Config
  | [] => .ok config
  | entry :: entries => do (← config.onEntry entry).read entries

def unknownAccount (name : String) : String := "Unknown account=\"" ++ name ++ "\""

/-- `get_api_key` -/
def getApiKey (config : Config) (name : String) : Except String String :=
  match config.accounts.lookup name with
  | none => .error (unknownAccount name)
  | some entry => .ok entry.login

/-- `get_secret` -/
def getSecret (config : Config) (name : String) : Except String String :=
  match config.accounts.lookup name with
  | none => .error (unknownAccount name)
  | some entry => .ok entry.secret

end Config

section Create

variable (hmac : String → String → String) (recvWindow : Int)

/-- `create_crypto` -/
def createCrypto (config : Config) (name : String) : Except String Crypto := do
  let key ← config.getApiKey name
  let secret ← config.getSecret name
  if key.isEmpty || secret.isEmpty then .error "Invalid config"
  else .ok { key := key, sign := hmac secret, recvWindow := recvWindow }

/-- The constructor of `Account`. -/
def Account.create (config : Config) (name : String) : Except String Account := do
  .ok { name := name, crypto := ← createCrypto hmac recvWindow config name }

/-- The loop of `create_accounts`, over the accounts in the order they are walked. -/
def createAccounts (config : Config) :
    List (String × AccountEntry) → List (String × Account) →
      Except String (List (String × Account))
  | [], result => .ok result
  | (_, entry) :: order, result => do
      let account ← Account.create hmac recvWindow config entry.name
      createAccounts config order (emplaceKey result entry.name account)

/-- The start of the gateway, up to its accounts; `walk` is the order in which the
container goes through the accounts. -/
def start (walk : List (String × AccountEntry) → List (String × AccountEntry))
    (entries : List ConfigEntry) : Except String (Config × List (String × Account)) := do
  let config ← Config.read {} entries
  let accounts ← createAccounts hmac recvWindow config (walk config.accounts) []
  .ok (config, accounts)

/-- What an entry is made into, where it is complete. -/
def AccountEntry.toAccount (entry : AccountEntry) : Account where
  name := entry.name
  crypto := { key := entry.login, sign := hmac entry.secret, recvWindow := recvWindow }

end Create

/-- The first account entry of a name. -/
def firstAccount (name : String) : List ConfigEntry → Option AccountEntry
  | [] => none
  | .account entry :: entries =>
      if entry.name = name then some entry else firstAccount name entries
  | _ :: entries => firstAccount name entries

def AccountEntry.Complete (entry : AccountEntry) : Prop :=
  entry.login ≠ "" ∧ entry.secret ≠ ""

instance (entry : AccountEntry) : Decidable entry.Complete :=
  inferInstanceAs (Decidable (_ ∧ _))

/-! ## Reading -/

namespace Config

/-- Every account stands under its own name, and under no other. -/
structure Keyed (config : Config) : Prop where
  keys : (config.accounts.map Prod.fst).Nodup
  named : ∀ p ∈ config.accounts, p.2.name = p.1
  master : config.masterAccount = "" ∨
    (config.accounts.lookup config.masterAccount).isSome

theorem Keyed.onAccount {config : Config} (h : config.Keyed) (entry : AccountEntry) :
    (config.onAccount entry).Keyed where
  keys := nodup_keys_emplaceKey h.keys entry.name entry
  named := by
    intro p hp
    cases mem_emplaceKey hp with
    | inl hOld => exact h.named p hOld
    | inr hNew => rw [hNew]
  master := by
    show (if entry.master then entry.name else config.masterAccount) = "" ∨
      ((emplaceKey config.accounts entry.name entry).lookup
        (if entry.master then entry.name else config.masterAccount)).isSome
    by_cases hMaster : entry.master
    · rw [if_pos hMaster, lookup_emplaceKey, if_pos rfl, Option.isSome_or]
      exact Or.inr (Bool.or_true _)
    · rw [if_neg hMaster, lookup_emplaceKey, Option.isSome_or]
      exact h.master.imp id fun hThere => by rw [hThere, Bool.true_or]

theorem keyed_empty : Config.Keyed {} where
  keys := List.nodup_nil
  named := nofun
  master := Or.inl rfl

/-- What one entry can do. -/
theorem onEntry_cases (config : Config) (entry : ConfigEntry) :
    (∃ account, entry = .account account ∧ config.onEntry entry = .ok (config.onAccount account)) ∨
    (∃ label, entry = .requestTemplate label ∧
      config.onEntry entry = .error "Unexpected: request templates not supported") ∨
    (config.onEntry entry = .ok config ∧ (∀ label, entry ≠ .requestTemplate label) ∧
      ∀ name entries, firstAccount name (entry :: entries) = firstAccount name entries) := by
  cases entry with
  | account account => exact Or.inl ⟨account, rfl, rfl⟩
  | requestTemplate label => exact Or.inr (Or.inl ⟨label, rfl, rfl⟩)
  | symbols => exact Or.inr (Or.inr ⟨rfl, nofun, fun _ _ => rfl⟩)
  | user => exact Or.inr (Or.inr ⟨rfl, nofun, fun _ _ => rfl⟩)
  | rateLimit => exact Or.inr (Or.inr ⟨rfl, nofun, fun _ _ => rfl⟩)
  | unexpected key => exact Or.inr (Or.inr ⟨rfl, nofun, fun _ _ => rfl⟩)

/-- A file without templates is read; the first entry of each name is kept. -/
theorem read_ok {config : Config} (hKeyed : config.Keyed) {entries : List ConfigEntry}
    (hTemplates : ∀ label, .requestTemplate label ∉ entries) :
    ∃ config', config.read entries = .ok config' ∧ config'.Keyed ∧
      ∀ name, config'.accounts.lookup name =
        (config.accounts.lookup name).or (firstAccount name entries) := by
  induction entries generalizing config with
  | nil => exact ⟨config, rfl, hKeyed, fun name => (Option.or_none).symm⟩
  | cons entry entries ih =>
      have hRest (label : String) : .requestTemplate label ∉ entries := fun hMem =>
        hTemplates label (List.mem_cons_of_mem entry hMem)
      obtain ⟨account, rfl, hOk⟩ | ⟨label, rfl, -⟩ | ⟨hOk, -, hFirst⟩ :=
        config.onEntry_cases entry
      · obtain ⟨config', hRead, hKeyed', hLookup⟩ := ih (hKeyed.onAccount account) hRest
        refine ⟨config', hRead, hKeyed', fun name => ?_⟩
        have hEmplace : (config.onAccount account).accounts.lookup name = _ :=
          lookup_emplaceKey config.accounts account.name account name
        rw [hLookup name, hEmplace, Option.or_assoc, firstAccount]
        by_cases hName : account.name = name
        · rw [if_pos hName, if_pos hName.symm, Option.some_or]
        · rw [if_neg hName, if_neg (Ne.symm hName), Option.none_or]
      · exact absurd List.mem_cons_self (hTemplates label)
      · obtain ⟨config', hRead, hKeyed', hLookup⟩ := ih hKeyed hRest
        refine ⟨config', ?_, hKeyed', fun name => ?_⟩
        · rw [read, hOk]
          exact hRead
        · rw [hLookup name, hFirst name entries]

/-- A template ends the process. -/
theorem read_error {entries : List ConfigEntry} {label : String}
    (hTemplate : .requestTemplate label ∈ entries) (config : Config) :
    config.read entries = .error "Unexpected: request templates not supported" := by
  induction entries generalizing config with
  | nil => cases hTemplate
  | cons entry entries ih =>
      obtain ⟨account, rfl, -⟩ | ⟨other, rfl, -⟩ | ⟨hOk, hNot, -⟩ := config.onEntry_cases entry
      · have hMem : .requestTemplate label ∈ entries :=
          (List.mem_cons.mp hTemplate).resolve_left ConfigEntry.noConfusion
        exact ih hMem _
      · rfl
      · have hMem := List.mem_of_ne_of_mem (hNot label).symm hTemplate
        rw [read, hOk]
        exact ih hMem config

end Config

/-! ## Creating -/

section Create

variable (hmac : String → String → String) (recvWindow : Int)

theorem create_of_lookup {config : Config} {name : String} {entry : AccountEntry}
    (hLookup : config.accounts.lookup name = some entry) (hName : entry.name = name) :
    Account.create hmac recvWindow config name =
      if entry.Complete then .ok (entry.toAccount hmac recvWindow)
      else .error "Invalid config" := by
  have hKey : config.getApiKey name = .ok entry.login := by
    unfold Config.getApiKey
    rw [hLookup]
  have hSecret : config.getSecret name = .ok entry.secret := by
    unfold Config.getSecret
    rw [hLookup]
  have hCrypto : createCrypto hmac recvWindow config name =
      if entry.login.isEmpty || entry.secret.isEmpty then .error "Invalid config"
      else .ok { key := entry.login, sign := hmac entry.secret, recvWindow := recvWindow } := by
    unfold createCrypto
    rw [hKey, hSecret]
    rfl
  unfold Account.create
  rw [hCrypto]
  by_cases hComplete : entry.Complete
  · rw [if_pos hComplete, if_neg (by simpa [AccountEntry.Complete] using hComplete), ← hName]
    rfl
  · have hMissing : (entry.login.isEmpty || entry.secret.isEmpty) = true := by
      simp only [AccountEntry.Complete, not_and_or, not_not] at hComplete
      simpa using hComplete
    rw [if_neg hComplete, if_pos hMissing]
    rfl

variable {config : Config}

/-- The loop over the accounts that are left: all of them are made, or one of them ends
the process. -/
theorem createAccounts_eq {order : List (String × AccountEntry)}
    (hOrder : ∀ p ∈ order, p.2.name = p.1 ∧ config.accounts.lookup p.1 = some p.2)
    (result : List (String × Account)) :
    createAccounts hmac recvWindow config order result =
      if ∀ p ∈ order, p.2.Complete then
        .ok (order.foldl
          (fun made p => emplaceKey made p.1 (p.2.toAccount hmac recvWindow)) result)
      else .error "Invalid config" := by
  induction order generalizing result with
  | nil => exact (if_pos (by simp)).symm
  | cons p order ih =>
      obtain ⟨hName, hLookup⟩ := hOrder p List.mem_cons_self
      have hCreate : Account.create hmac recvWindow config p.2.name = _ :=
        create_of_lookup hmac recvWindow (hName ▸ hLookup) rfl
      have hTail := ih fun q hq => hOrder q (List.mem_cons_of_mem p hq)
      rw [createAccounts, hCreate]
      by_cases hComplete : p.2.Complete
      · have hAll : (∀ q ∈ p :: order, q.2.Complete) ↔ ∀ q ∈ order, q.2.Complete := by
          rw [List.forall_mem_cons]
          exact and_iff_right hComplete
        simp only [if_pos hComplete, hAll, List.foldl_cons]
        rw [← hName]
        exact hTail _
      · rw [if_neg hComplete, if_neg fun hAll => hComplete (hAll p List.mem_cons_self)]
        rfl

end Create

/-! ## The start -/

section Start

variable (hmac : String → String → String) (recvWindow : Int)
variable {walk : List (String × AccountEntry) → List (String × AccountEntry)}
variable {entries : List ConfigEntry}

/-- What the loop over the accounts is given once the file is read: the first entry of
every name, whatever the order. -/
structure Walked (config : Config) (walked : List (String × AccountEntry))
    (entries : List ConfigEntry) : Prop where
  named : ∀ p ∈ walked, p.2.name = p.1
  mem_iff : ∀ p, p ∈ walked ↔ firstAccount p.1 entries = some p.2
  walked_lookup : ∀ name, walked.lookup name = firstAccount name entries
  config_lookup : ∀ name, config.accounts.lookup name = firstAccount name entries

theorem Walked.of_perm {config : Config} (hKeyed : config.Keyed)
    (hWalk : ∀ l, (walk l).Perm l)
    (hFound : ∀ name, config.accounts.lookup name = firstAccount name entries) :
    Walked config (walk config.accounts) entries where
  named p hp := hKeyed.named p ((hWalk _).mem_iff.mp hp)
  mem_iff p := by
    rw [(hWalk _).mem_iff, ← lookup_eq_some_iff_mem hKeyed.keys, hFound]
  walked_lookup name := by
    rw [lookup_perm hKeyed.keys (hWalk _), hFound]
  config_lookup := hFound

/-- All the accounts that are walked are complete if and only if all the first entries are. -/
theorem Walked.complete_iff {config : Config} {walked : List (String × AccountEntry)}
    (hWalked : Walked config walked entries) :
    (∀ p ∈ walked, p.2.Complete) ↔
      ∀ name entry, firstAccount name entries = some entry → entry.Complete := by
  constructor
  · intro hAll name entry hEntry
    exact hAll (name, entry) ((hWalked.mem_iff (name, entry)).mpr hEntry)
  · intro hAll p hp
    exact hAll p.1 p.2 ((hWalked.mem_iff p).mp hp)

/-- A template ends the process before any account is made. -/
theorem start_template {label : String} (hTemplate : .requestTemplate label ∈ entries) :
    start hmac recvWindow walk entries =
      .error "Unexpected: request templates not supported" := by
  unfold start
  rw [Config.read_error hTemplate]
  rfl

/-- Without templates the file is read, and the first entries decide. -/
theorem start_read (hWalk : ∀ l, (walk l).Perm l)
    (hTemplates : ∀ label, .requestTemplate label ∉ entries) :
    ∃ config : Config, config.Keyed ∧ Walked config (walk config.accounts) entries ∧
      start hmac recvWindow walk entries =
        if ∀ p ∈ walk config.accounts, p.2.Complete then
          .ok (config, (walk config.accounts).foldl
            (fun made p => emplaceKey made p.1 (p.2.toAccount hmac recvWindow)) [])
        else .error "Invalid config" := by
  obtain ⟨config, hRead, hKeyed, hFirst⟩ := Config.read_ok Config.keyed_empty hTemplates
  have hFound (name : String) : config.accounts.lookup name = firstAccount name entries := by
    rw [hFirst name]
    exact Option.none_or
  have hWalked := Walked.of_perm hKeyed hWalk hFound
  have hOrder : ∀ p ∈ walk config.accounts,
      p.2.name = p.1 ∧ config.accounts.lookup p.1 = some p.2 := by
    intro p hp
    refine ⟨hWalked.named p hp, ?_⟩
    rw [hFound, (hWalked.mem_iff p).mp hp]
  have hStart : start hmac recvWindow walk entries =
      (createAccounts hmac recvWindow config (walk config.accounts) [] >>= fun accounts =>
        .ok (config, accounts)) := by
    unfold start
    rw [hRead]
    rfl
  refine ⟨config, hKeyed, hWalked, ?_⟩
  rw [hStart, createAccounts_eq hmac recvWindow hOrder]
  by_cases hAll : ∀ p ∈ walk config.accounts, p.2.Complete
  · rw [if_pos hAll, if_pos hAll]
    rfl
  · rw [if_neg hAll, if_neg hAll]
    rfl

end Start

/--
**Which configurations the gateway starts with**, in whatever order the container walks
the accounts: no entry is a request template, and the first entry of every account name
has a key and a secret.  The accounts it then has are those of the first entries, each under
its name, and the master account is one of them if one has been named.
-/
theorem starts_iff (hmac : String → String → String) (recvWindow : Int)
    (walk : List (String × AccountEntry) → List (String × AccountEntry))
    (hWalk : ∀ l, (walk l).Perm l) (entries : List ConfigEntry) :
    ((∃ started, start hmac recvWindow walk entries = .ok started) ↔
      (∀ label, .requestTemplate label ∉ entries) ∧
        ∀ name entry, firstAccount name entries = some entry → entry.Complete) ∧
    ∀ config accounts, start hmac recvWindow walk entries = .ok (config, accounts) →
      (∀ name, accounts.lookup name =
        (firstAccount name entries).map (AccountEntry.toAccount hmac recvWindow)) ∧
      (config.masterAccount = "" ∨ (accounts.lookup config.masterAccount).isSome) := by
  by_cases hTemplates : ∀ label, .requestTemplate label ∉ entries
  · obtain ⟨config, hKeyed, hWalked, hStart⟩ := start_read hmac recvWindow hWalk hTemplates
    rw [hStart]
    by_cases hAll : ∀ p ∈ walk config.accounts, p.2.Complete
    · rw [if_pos hAll]
      refine ⟨⟨fun _ => ⟨hTemplates, hWalked.complete_iff.mp hAll⟩, fun _ => ⟨_, rfl⟩⟩, ?_⟩
      intro config' accounts hStarted
      obtain ⟨rfl, rfl⟩ := Prod.mk.inj (Except.ok.inj hStarted)
      have hLookup (name : String) := lookup_foldl_emplaceKey
        (AccountEntry.toAccount hmac recvWindow) (walk config.accounts) [] name
      refine ⟨fun name => ?_, hKeyed.master.imp id fun hThere => ?_⟩
      · rw [hLookup, hWalked.walked_lookup]
        exact Option.none_or
      · rw [hLookup, hWalked.walked_lookup, ← hWalked.config_lookup]
        exact (Option.isSome_map ..).trans hThere
    · rw [if_neg hAll]
      refine ⟨⟨?_, fun h => absurd (hWalked.complete_iff.mpr h.2) hAll⟩, ?_⟩
      · rintro ⟨started, hStarted⟩
        cases hStarted
      · intro config' accounts hStarted
        cases hStarted
  · obtain ⟨label, hTemplate⟩ := not_forall_not.mp hTemplates
    rw [start_template hmac recvWindow hTemplate]
    refine ⟨⟨?_, fun h => absurd h.1 hTemplates⟩, ?_⟩
    · rintro ⟨started, hStarted⟩
      cases hStarted
    · intro config' accounts hStarted
      cases hStarted

/-- Two accounts, and a second entry for the first of them. -/
def repeatedAccount : List ConfigEntry :=
  [ .account { name := "A1", master := true, login := "k1", secret := "s1" },
    .user,
    .account { name := "A2", master := false, login := "k2", secret := "s2" },
    .account { name := "A1", master := false, login := "", secret := "" } ]

/-- The second entry is not complete, and does not count. -/
theorem starts_repeatedAccount :
    ∃ config accounts,
      start (fun secret text => secret ++ text) 5000 List.reverse repeatedAccount =
        .ok (config, accounts) ∧
      (accounts.lookup "A1").map (·.crypto.key) = some "k1" := by
  obtain ⟨hStarts, hAccounts⟩ := starts_iff (fun secret text => secret ++ text) 5000
    List.reverse List.reverse_perm repeatedAccount
  have hTemplates : ∀ label, .requestTemplate label ∉ repeatedAccount := by
    simp [repeatedAccount]
  have hComplete : ∀ name entry, firstAccount name repeatedAccount = some entry →
      entry.Complete := by
    intro name entry hEntry
    simp only [repeatedAccount, firstAccount] at hEntry
    by_cases hFirst : "A1" = name
    · rw [if_pos hFirst] at hEntry
      rw [← Option.some.inj hEntry]
      decide
    · rw [if_neg hFirst, if_neg hFirst] at hEntry
      by_cases hSecond : "A2" = name
      · rw [if_pos hSecond] at hEntry
        rw [← Option.some.inj hEntry]
        decide
      · rw [if_neg hSecond] at hEntry
        cases hEntry
  obtain ⟨⟨config, accounts⟩, hStarted⟩ := hStarts.mpr ⟨hTemplates, hComplete⟩
  refine ⟨config, accounts, hStarted, ?_⟩
  rw [(hAccounts config accounts hStarted).1 "A1"]
  rfl

end RoqWhitebit.Gateway
