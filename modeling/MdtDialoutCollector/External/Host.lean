import MdtDialoutCollector.Text.Bytes

/-! What the collector finds when it starts: its configuration file as libconfig reads it,
the file system it asks about paths, the sinks its loggers want and the threads it starts. -/

namespace MdtDialoutCollector.External

open Text

/-- A setting of the configuration file; `other` is one that is no string. -/
inductive Setting where
  | string (s : CString)
  | other
  deriving DecidableEq

/-- A `libconfig::Config` that has been read. -/
structure Config where
  lookup : String → Option Setting

namespace Config

/-- A file of string settings. -/
def ofStrings (settings : List (String × CString)) : Config where
  lookup key := (settings.find? fun setting => setting.1 == key).map fun setting => .string setting.2

/-- The string under a key, or the default where the key is absent. -/
def text (cfg : Config) (key : String) (default : Bytes) : Bytes :=
  match cfg.lookup key with
  | some (.string s) => s.bytes
  | _ => default

end Config

/-- How `readFile` ends: a `FileIOException`, a `ParseException` or a configuration. -/
inductive ConfigFile where
  | unreadable
  | parse
  | read (cfg : Config)

/-- How `std::filesystem::exists` ends; it throws on errors other than a missing entry. -/
inductive Existence where
  | present
  | absent
  | failure
  deriving DecidableEq

/-- The sinks are the constructors that can throw a `spdlog_ex`: those of the boot logger
and those the configuration asks for. A thread is known by the key of its socket and by its
number. -/
structure Host where
  configFile : ConfigFile
  pathExists : Bytes → Existence
  bootSyslogSink : Bool
  bootConsoleSink : Bool
  syslogSink : Bytes → ℕ → Bool
  consoleSink : Bool
  threadStarts : String → ℕ → Bool

end MdtDialoutCollector.External
