import LedgerWire.Config
import LedgerWire.Proofs.Toml.Lines

/-!
The settings of a client survive their text. What is written is read back as it was, so nothing but
the checks decides whether it is taken.
-/

namespace LedgerWire.ClientConfig

def keys : List String := fields.keys.map Prod.fst

def settings (config : ClientConfig) : List (String × String) :=
  ("network", config.network.name) ::
    ((config.url.toList.map fun url => ("rpc_url", url)) ++
      [("coin_type", config.coinType), ("log_format", config.logFormat.name),
        ("log_level", config.logLevel)])

theorem toToml_eq (config : ClientConfig) : config.toToml = Toml.writeEntries config.settings := by
  obtain ⟨network, url, coinType, logFormat, logLevel⟩ := config
  cases url with
  | none => simp [toToml, Toml.writeEntries, settings, String.join_cons, String.append_assoc]
  | some url => simp [toToml, Toml.writeEntries, settings, String.join_cons, String.append_assoc]

theorem keys_settings (config : ClientConfig) : (config.settings.map Prod.fst).Sublist keys := by
  unfold settings
  cases config.url with
  | none => exact ((List.Sublist.refl _).cons "rpc_url").cons_cons "network"
  | some url => exact List.Sublist.refl keys

theorem read_toToml (config : ClientConfig) :
    Toml.read config.toToml =
      some (config.settings.map fun setting => (setting.1, .text setting.2)) := by
  have bare : keys.all Toml.isBare = true := by decide
  have apart : keys.Nodup := by decide
  rw [toToml_eq]
  apply Toml.read_writeEntries
  · intro setting member
    exact List.all_eq_true.1 bare setting.1 ((keys_settings config).subset (List.mem_map_of_mem member))
  · exact apart.sublist (keys_settings config)

theorem find?_network (network : Network) :
    (Network.all.find? fun other => other.name = network.name) = some network := by
  cases network <;> decide

theorem find?_logFormat (format : LogFormat) :
    (LogFormat.all.find? fun other => other.name = format.name) = some format := by
  cases format <;> decide

theorem ofEntries?_settings (config : ClientConfig) :
    ofEntries? (config.settings.map fun setting => (setting.1, .text setting.2)) = some config := by
  obtain ⟨network, url, coinType, logFormat, logLevel⟩ := config
  have network := find?_network network
  have logFormat := find?_logFormat logFormat
  cases url
  all_goals simp [ofEntries?, settings, setting, Toml.find?, nameOf?, textOf?, network, logFormat]

theorem ofToml_of_found {text : String} {config : ClientConfig}
    (found : (Toml.read text).bind ofEntries? = some config) :
    ofToml text =
      match config.check with
      | .ok () => .ok config
      | .error fault => .error fault := by
  simp only [ofToml, found]
  cases config.check with
  | ok _ => rfl
  | error fault => rfl

theorem check_of_ofToml {text : String} {config : ClientConfig} (read : ofToml text = .ok config) :
    config.check = .ok () := by
  cases found : (Toml.read text).bind ofEntries? with
  | none =>
      simp only [ofToml, found] at read
      contradiction
  | some other =>
      rw [ofToml_of_found found] at read
      cases checked : other.check with
      | ok _ =>
          rw [checked] at read
          cases read
          exact checked
      | error fault =>
          rw [checked] at read
          contradiction

/-- Settings that are written are taken as they were if they stand up to their checks, and refused as
the checks refuse them otherwise. Whatever text they come from, settings that were taken do. -/
theorem survives_toml :
    (∀ config : ClientConfig, ofToml config.toToml =
      match config.check with
      | .ok () => .ok config
      | .error fault => .error fault) ∧
    ∀ text config, ofToml text = .ok config →
      config.check = .ok () ∧ ofToml config.toToml = .ok config := by
  have written (config : ClientConfig) : (Toml.read config.toToml).bind ofEntries? = some config := by
    rw [read_toToml, Option.bind_some, ofEntries?_settings]
  constructor
  · intro config
    exact ofToml_of_found (written config)
  · intro text config read
    have checked := check_of_ofToml read
    have again := ofToml_of_found (written config)
    rw [checked] at again
    exact ⟨checked, again⟩

def oddLevel : ClientConfig := { standard with logLevel := "\x07 '''\n\"\"\" \\" }

def oddAddress : ClientConfig := { standard with url := some "ftp://\"node\"" }

theorem check_oddLevel : oddLevel.check = .ok () := by
  rfl

theorem odd_settings_survive :
    ofToml (Toml.writeEntries [("log_level", oddLevel.logLevel)]) = .ok oddLevel ∧
      ofToml oddLevel.toToml = .ok oddLevel ∧
      ofToml oddAddress.toToml = .error (.notHttp "ftp://\"node\"") := by
  have bare : ∀ setting ∈ [("log_level", oddLevel.logLevel)], Toml.isBare setting.1 = true := by
    intro setting member
    rw [List.mem_singleton.1 member]
    decide
  have lines := Toml.read_writeEntries bare (by simp)
  have read : ofToml (Toml.writeEntries [("log_level", oddLevel.logLevel)]) = .ok oddLevel := by
    have found : (Toml.read (Toml.writeEntries [("log_level", oddLevel.logLevel)])).bind ofEntries? =
        some oddLevel := by
      rw [lines]
      rfl
    rw [ofToml_of_found found, check_oddLevel]
  exact ⟨read, (survives_toml.2 _ _ read).2, survives_toml.1 oddAddress⟩

end LedgerWire.ClientConfig
