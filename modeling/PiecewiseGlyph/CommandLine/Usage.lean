import PiecewiseGlyph.CommandLine.Reading

/-!
# Help

What is printed in place of a run when a command line is not carried out.
-/

namespace PiecewiseGlyph

/-- The words a command line may have. -/
def usage : String :=
  "Usage: glyph-desmos [OPTIONS] [FONT]\n\n" ++
  "  -g, --glyphs <GLYPHS>        Characters to convert, in output order\n" ++
  "  -a, --all                    Convert every glyph in the font\n" ++
  "  -l, --list                   List the glyphs in the font\n" ++
  "  -d, --path-data <PATH_DATA>  Raw path data to convert (requires --label)\n" ++
  "      --label <LABEL>          Glyph label used to name the formula\n" ++
  "  -o, --output <OUTPUT>        Write output to a file\n" ++
  "      --format <FORMAT>        text or json\n" ++
  "      --normalization <N>      Divide font units by this value (default 1500)\n" ++
  "      --helpers                Also print the helper function definitions\n" ++
  "      --config <CONFIG>        Read settings from this file\n" ++
  "      --new-config             Write a settings file and exit\n" ++
  "  -v, --verbose                Show more notices\n" ++
  "      --log-file               Also keep notices in a file\n" ++
  "  -h, --help                   Print help\n" ++
  "  -V, --version                Print version\n"

/-- The name and version of the program. -/
def version : String := "glyph-desmos 0.1.0\n"

namespace CommandLineError

/-- What is printed. -/
def message : CommandLineError → String
  | unknownWord => "error: unexpected argument\n\n" ++ usage
  | repeatedKey => "error: an argument cannot be used multiple times\n\n" ++ usage
  | badValue => "error: an argument has an invalid value\n\n" ++ usage
  | notANumber => "error: an argument is not a number\n\n" ++ usage
  | surplusValue => "error: an argument takes no value\n\n" ++ usage
  | helpWanted => usage
  | versionWanted => version

/-- Asking for help or for the version is no failure. -/
def exitCode : CommandLineError → Nat
  | helpWanted => 0
  | versionWanted => 0
  | _ => 2

end CommandLineError

end PiecewiseGlyph
