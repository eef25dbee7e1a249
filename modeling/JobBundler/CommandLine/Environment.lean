import JobBundler.Config.File
import JobBundler.Process.Basic
import JobBundler.Text.Blank

/-! # Settings from the environment

Variables override what the configuration file sets, and a flag overrides both. A blank variable
counts as one that is not set. -/

namespace JobBundler

/-- The value of a variable that is not blank. -/
def Environment.setting? (e : Environment) (name : String) : Option String :=
  (e.find? name).filter fun value => !Text.isBlankText value

/-- What is to be logged. -/
def Environment.logFilter? (e : Environment) : Option String :=
  (e.setting? "EJ_LOG").or (e.setting? "RUST_LOG")

namespace Config

/-- The configuration with the settings of the environment. -/
def override (c : Config) (e : Environment) : Except ConfigError Config := do
  let mode ← match e.setting? "EJ_MODE" with
    | some text => BuildMode.parse text
    | none => pure c.mode
  return { c with
    mode
    jobDecorator := (e.setting? "EJ_JOB_DECORATOR").getD c.jobDecorator
    groupDecorator := (e.setting? "EJ_GROUP_DECORATOR").getD c.groupDecorator
    target := (e.setting? "EJ_TARGET").getD c.target
    outDir := ((e.setting? "EJ_OUT_DIR").map Path.mk).getD c.outDir
    pattern := (e.setting? "EJ_PATTERN").getD c.pattern
    bundler := match e.setting? "EJ_BUNDLER" with
      | some text => (Text.words text.toList).map String.ofList
      | none => c.bundler
    node := (e.setting? "EJ_NODE").getD c.node }

/-- The configuration of the project at a root, with the settings of the environment and with the
mode of a flag. -/
def loadWith (root : Path) (e : Environment) (mode : Option BuildMode) (d : Disk) :
    Except ConfigError Config := do
  let c ← (← load root d).override e
  return { c with mode := mode.getD c.mode }

end Config
end JobBundler
