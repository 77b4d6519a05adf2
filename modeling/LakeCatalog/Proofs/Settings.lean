import LakeCatalog.Catalog.Exchange
import LakeCatalog.Proofs.Catalog.SchemaBatch
import LakeCatalog.Settings

/-!
# Settings that load and settings that work

Loading refuses names that are blank and a catalog whose address is none. What is made of the
settings afterwards asks for more: the names have to fit into URNs, which stand on one line, and
the catalog has to be reached by http or https. So settings that load can still be useless, and this
says exactly when they are.
-/

namespace LakeCatalog

open Text Catalog

namespace Settings

variable {lookup : Lookup} {name v : String}

lemma filled_of_value? (found : value? lookup name = some v) : isAllBlank v = false := by
  rw [value?, Option.filter_eq_some_iff] at found
  simpa using found.2

lemma filled_of_required (found : required lookup name = .ok v) : isAllBlank v = false := by
  unfold required at found
  split at found
  · rename_i w set
    cases found
    exact filled_of_value? set
  · cases found

lemma filled_getD {absent : String} (filled : isAllBlank absent = false) :
    isAllBlank ((value? lookup name).getD absent) = false := by
  cases found : value? lookup name with
  | none => exact filled
  | some v => exact filled_of_value? found

/-- The names of a table whose settings are read are not blank. -/
lemma filled_of_readSync {s : SyncSettings} (read : readSync lookup = .ok s) :
    isAllBlank s.database = false ∧ isAllBlank s.table = false ∧ isAllBlank s.platform = false := by
  unfold readSync at read
  obtain ⟨database, hdatabase, read⟩ := bind_eq_ok_iff.mp read
  obtain ⟨table, htable, read⟩ := bind_eq_ok_iff.mp read
  obtain ⟨_, -, read⟩ := bind_eq_ok_iff.mp read
  obtain ⟨_, -, read⟩ := bind_eq_ok_iff.mp read
  obtain ⟨_, -, read⟩ := bind_eq_ok_iff.mp read
  obtain ⟨_, -, read⟩ := bind_eq_ok_iff.mp read
  obtain ⟨_, -, read⟩ := bind_eq_ok_iff.mp read
  cases read
  exact ⟨filled_of_required hdatabase, filled_of_required htable, filled_getD (by decide)⟩

/-- Settings that load have been read and are not refused. -/
lemma read_of_load [Url.DomainRule] {s : Settings} (loaded : load lookup = .ok s) :
    readSync lookup = .ok s.sync ∧ s.refused = [] := by
  unfold load at loaded
  obtain ⟨listen, -, loaded⟩ := bind_eq_ok_iff.mp loaded
  obtain ⟨sync, hsync, loaded⟩ := bind_eq_ok_iff.mp loaded
  dsimp only at loaded
  split at loaded
  · rename_i accepted
    cases loaded
    exact ⟨hsync, accepted⟩
  · cases loaded

lemma exists_address_of_load [Url.DomainRule] {s : Settings} (loaded : load lookup = .ok s) :
    ∃ address, Url.parse s.catalog.server = .ok address := by
  have accepted := (read_of_load loaded).2
  unfold refused at accepted
  split at accepted
  · cases accepted
  · rename_i address read
    exact ⟨address, read⟩

end Settings

/-- The names of a table that fit into URNs; line feeds behind the platform are cut off. -/
structure SyncSettings.NamesOnOneLine (s : SyncSettings) : Prop where
  platform : '\n' ∉ trimEnd s.platform.toList
  database : '\n' ∉ s.database.toList
  table : '\n' ∉ s.table.toList
  environment : '\n' ∉ s.environment.toList

instance (s : SyncSettings) : Decidable s.NamesOnOneLine :=
  decidable_of_iff ('\n' ∉ trimEnd s.platform.toList ∧ '\n' ∉ s.database.toList ∧
      '\n' ∉ s.table.toList ∧ '\n' ∉ s.environment.toList)
    ⟨fun ⟨platform, database, table, environment⟩ => ⟨platform, database, table, environment⟩,
      fun ⟨platform, database, table, environment⟩ => ⟨platform, database, table, environment⟩⟩

lemma Sync.Client.exists_of_iff {s : SyncSettings} :
    (∃ c, Client.of s = .ok c) ↔ ∃ identity, s.identity = .ok identity := by
  constructor
  · rintro ⟨c, made⟩
    obtain ⟨identity, named, -⟩ := of_eq_ok_iff.mp made
    exact ⟨identity, named⟩
  · rintro ⟨identity, named⟩
    exact ⟨_, of_eq_ok_iff.mpr ⟨identity, named, rfl⟩⟩

lemma Urn.eq_invalidUrn_of_parse {raw : String} {fault : Fault}
    (refused : parse raw = .error fault) : fault = .build (.invalidUrn raw) := by
  unfold parse at refused
  split at refused
  · cases refused
  · exact (Except.error.inj refused).symm

/-- A table with filled names lacks an identity for want of a URN. -/
lemma TableIdentity.eq_invalidUrn_of {platform database table env : String} {fault : Fault}
    (filled : isAllBlank database = false) (named : isAllBlank table = false)
    (refused : of platform database table env = .error fault) :
    ∃ text, fault = .build (.invalidUrn text) := by
  rw [of, filled, named] at refused
  rcases bind_eq_error_iff.mp refused with refused | ⟨platformUrn, -, refused⟩
  · exact ⟨_, Urn.eq_invalidUrn_of_parse refused⟩
  rcases bind_eq_error_iff.mp refused with refused | ⟨dataset, -, refused⟩
  · exact ⟨_, Urn.eq_invalidUrn_of_parse refused⟩
  rcases bind_eq_error_iff.mp refused with refused | ⟨container, -, refused⟩
  · exact ⟨_, Urn.eq_invalidUrn_of_parse refused⟩
  · cases refused

namespace Catalog.Server

variable [Url.DomainRule] {server : String} {token : Option String} {address : Url.Address}

/-- Only the schemes of the web lead to addresses that are kept. -/
lemma defaultPort?_of_other {scheme : List Char} (read : Url.parse server = .ok (.other scheme)) :
    Url.defaultPort? scheme = none := by
  unfold Url.parse Url.parseChars at read
  split at read
  · cases read
  · rename_i found rest _
    cases port : Url.defaultPort? found with
    | some n =>
      simp only [port] at read
      cases web : Url.readWeb found n rest with
      | error cause => rw [web] at read; cases read
      | ok url => rw [web] at read; cases read
    | none =>
      simp only [port] at read
      cases checked : (if found = ['f', 'i', 'l', 'e'] then Url.checkFile rest
        else Url.checkOther rest) with
      | error cause => rw [checked] at read; cases read
      | ok _ => rw [checked] at read; cases read; exact port

/-- A sound address is that of a server exactly if its scheme is http or https. -/
lemma ofSettings_of_address (read : Url.parse server = .ok address) :
    ((∃ s, ofSettings server token = .ok s) ↔
      address.scheme = "http".toList ∨ address.scheme = "https".toList) ∧
    ∀ fault, ofSettings server token = .error fault →
      fault = .config (.unsupportedScheme (String.ofList address.scheme)) := by
  cases address with
  | web url =>
    unfold ofSettings
    simp only [read, Url.Address.scheme]
    by_cases http : url.scheme = "http".toList ∨ url.scheme = "https".toList
    · rw [if_pos http]
      exact ⟨iff_of_true ⟨_, rfl⟩ http, fun fault refused => by cases refused⟩
    · rw [if_neg http]
      refine ⟨iff_of_false (fun ⟨s, made⟩ => by cases made) http, fun fault refused => ?_⟩
      exact (Except.error.inj refused).symm
  | other scheme =>
    have noPort := defaultPort?_of_other read
    unfold ofSettings
    simp only [read, Url.Address.scheme]
    constructor
    · refine iff_of_false (fun ⟨s, made⟩ => by cases made) ?_
      rintro (rfl | rfl) <;> revert noPort <;> decide
    · exact fun fault refused => (Except.error.inj refused).symm

end Catalog.Server

/-- Of settings that load, a client can be made exactly if the names of the table stand on one line,
and a server exactly if the scheme of its address is http or https. What fails otherwise is a URN,
or the scheme is not supported. -/
theorem loaded_settings_usable_iff [Url.DomainRule] {lookup : Settings.Lookup} {s : Settings}
    (loaded : Settings.load lookup = .ok s) :
    ((∃ c, Sync.Client.of s.sync = .ok c) ↔ ∃ identity, s.sync.identity = .ok identity) ∧
      ((∃ identity, s.sync.identity = .ok identity) ↔ s.sync.NamesOnOneLine) ∧
      (∀ fault, s.sync.identity = .error fault → ∃ text, fault = .build (.invalidUrn text)) ∧
      ∃ address, Url.parse s.catalog.server = .ok address ∧
        ((∃ server, Server.ofSettings s.catalog.server s.catalog.token = .ok server) ↔
          address.scheme = "http".toList ∨ address.scheme = "https".toList) ∧
        ∀ fault, Server.ofSettings s.catalog.server s.catalog.token = .error fault →
          fault = .config (.unsupportedScheme (String.ofList address.scheme)) := by
  obtain ⟨database, table, platform⟩ := Settings.filled_of_readSync (Settings.read_of_load loaded).1
  obtain ⟨address, read⟩ := Settings.exists_address_of_load loaded
  refine ⟨Sync.Client.exists_of_iff, ?_, ?_, address, read, Server.ofSettings_of_address read⟩
  · rw [SyncSettings.identity, TableIdentity.exists_of_iff_lines _ _ _ _ platform]
    constructor
    · rintro ⟨-, platformLine, databaseLine, tableLine, environmentLine⟩
      exact ⟨platformLine, databaseLine, tableLine, environmentLine⟩
    · rintro ⟨platformLine, databaseLine, tableLine, environmentLine⟩
      exact ⟨⟨database, table⟩, platformLine, databaseLine, tableLine, environmentLine⟩
  · exact fun fault refused => TableIdentity.eq_invalidUrn_of database table refused

def salesEnvironment (server platform table : String) : Settings.Lookup := fun name =>
  [("SYNC_DATABASE_NAME", "sales"), ("SYNC_TABLE_NAME", table), ("SYNC_BASE_PATH", "/data/sales"),
    ("DATAHUB_PLATFORM_NAME", platform), ("DATAHUB_SERVER", server)].lookup name

lemma exists_load_of_any (lookup : Settings.Lookup) (check : Settings → Bool)
    (loads : (Settings.load lookup).toOption.any check = true) :
    ∃ s, Settings.load lookup = .ok s ∧ check s = true := by
  cases loaded : Settings.load lookup with
  | error fault => rw [loaded] at loads; cases loads
  | ok s =>
    rw [loaded] at loads
    exact ⟨s, rfl, loads⟩

/-- Blanks around the address and a line feed behind the platform do no harm. -/
theorem loaded_settings_usable_of_sales :
    ∃ s, Settings.load (salesEnvironment " HTTPS://gms " "hudi\n" "orders") = .ok s ∧
      (∃ c, Sync.Client.of s.sync = .ok c) ∧
      ∃ server, Server.ofSettings s.catalog.server s.catalog.token = .ok server := by
  obtain ⟨s, loaded, checked⟩ := exists_load_of_any
    (salesEnvironment " HTTPS://gms " "hudi\n" "orders")
    (fun s => decide s.sync.NamesOnOneLine &&
      (Url.parse s.catalog.server).toOption.any fun address => address.scheme = "https".toList)
    (by decide +kernel)
  obtain ⟨client, named, -, address, read, reached, -⟩ := loaded_settings_usable_iff loaded
  simp only [read, Except.toOption, Option.any_some, Bool.and_eq_true, decide_eq_true_eq] at checked
  exact ⟨s, loaded, client.mpr (named.mpr checked.1), reached.mpr (.inr checked.2)⟩

/-- A catalog that is not on the web and a table name of two lines are found only after loading. -/
theorem unusable_settings_load :
    (¬ ∀ lookup s, Settings.load lookup = .ok s →
      (∃ c, Sync.Client.of s.sync = .ok c) ∧
        ∃ server, Server.ofSettings s.catalog.server s.catalog.token = .ok server) ∧
      (∃ s, Settings.load (salesEnvironment "ftp://gms.internal" "hudi" "orders") = .ok s ∧
        Server.ofSettings s.catalog.server s.catalog.token =
          .error (.config (.unsupportedScheme "ftp"))) ∧
      ∃ s, Settings.load (salesEnvironment "http://gms.internal" "hudi" "orders\n2024") = .ok s ∧
        s.sync.identity = .error (.build (.invalidUrn
          "urn:li:dataset:(urn:li:dataPlatform:hudi,sales.orders\n2024,PROD)")) := by
  obtain ⟨s, loaded, refused⟩ := exists_load_of_any
    (salesEnvironment "ftp://gms.internal" "hudi" "orders")
    (fun s => decide (Server.ofSettings s.catalog.server s.catalog.token =
      .error (.config (.unsupportedScheme "ftp")))) (by decide +kernel)
  obtain ⟨s', loaded', unnamed⟩ := exists_load_of_any
    (salesEnvironment "http://gms.internal" "hudi" "orders\n2024")
    (fun s => decide (s.sync.identity = .error (.build (.invalidUrn
      "urn:li:dataset:(urn:li:dataPlatform:hudi,sales.orders\n2024,PROD)")))) (by decide +kernel)
  refine ⟨fun always => ?_, ⟨s, loaded, of_decide_eq_true refused⟩,
    ⟨s', loaded', of_decide_eq_true unnamed⟩⟩
  obtain ⟨-, server, reached⟩ := always _ s loaded
  rw [of_decide_eq_true refused] at reached
  cases reached

end LakeCatalog
