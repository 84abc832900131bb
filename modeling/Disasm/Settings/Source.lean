import Disasm.Settings.Reader
/-!
# Where settings come from

Settings come from a file with JSON text, named by a variable of the
environment. Without the variable, or with nothing in it, they are the
default.
-/

namespace Disasm

/-- Why there are no settings. -/
inductive SettingsError
  /-- There is no such file. -/
  | noFile
  /-- The file does not hold UTF-8 text. -/
  | notText
  /-- The text has a flaw. -/
  | flawed (flaw : Json.Flaw)
deriving DecidableEq, Repr

/-- What is behind a settings error, in the words of the system and of the reader
of JSON. Of a flaw only the kind is told, since its place is not kept. -/
def SettingsError.cause : SettingsError → String
  | .noFile => "No such file or directory (os error 2)"
  | .notText => "stream did not contain valid UTF-8"
  | .flawed .unfinished => "eof"
  | .flawed .malformed => "syntax"
  | .flawed .mistyped => "data"

/-- The wording of a settings error. -/
def SettingsError.message (error : SettingsError) : String :=
  match error with
  | .noFile | .notText => "Falha ao ler configuração: " ++ error.cause
  | .flawed _ => "Falha ao interpretar configuração: " ++ error.cause

namespace Settings

/-- The name of the environment's variable. -/
def variableName : String := "REVERSER_CONFIG"

/-- The settings in the contents of a file, which may be missing. -/
def ofFile (contents : Option ByteArray) : Except SettingsError Settings :=
  match contents with
  | none => .error .noFile
  | some bytes =>
    match String.fromUTF8? bytes with
    | none => .error .notText
    | some text => (parse text).mapError .flawed

/-- The file that the environment's variable names, if it names one. -/
def filePath? (value : Option String) : Option String :=
  value.filter fun path => path != ""

/-- The settings of an environment, given the value of its variable and the
contents of its files. -/
def ofEnvironment (value : Option String) (contents : String → Option ByteArray) :
    Except SettingsError Settings :=
  match filePath? value with
  | none => .ok {}
  | some path => ofFile (contents path)

end Settings

end Disasm
