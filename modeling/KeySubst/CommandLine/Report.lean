import KeySubst.CommandLine.Run

namespace KeySubst.CommandLine

def helpPage : String :=
  lines
    ["Replace identifiers and environment variable references in source files",
      "",
      "Usage: envreplace [OPTIONS] [FILES]...",
      "       envreplace [OPTIONS] config <show|validate>",
      "",
      "Options:",
      "      --config <PATH>             Use this configuration file",
      "      --set <KEY=VALUE>           Add or change a replacement value (repeatable)",
      "      --delimiters <OPEN> <CLOSE> Only replace keys between these delimiters",
      "      --allow-assignment          Also replace targets of assignments",
      "      --no-sourcemap              Make no source maps",
      "      --include <GLOB>            Files to transform (repeatable)",
      "      --exclude <GLOB>            Files to skip (repeatable)",
      "      --out-dir <DIR>             Write results below this directory",
      "      --changed-only              Only print or write files that changed",
      "      --init                      Make a template configuration here",
      "      --force                     Overwrite the configuration with --init",
      "  -v, --verbose                   Say more about what is done",
      "  -h, --help                      Print help",
      "  -V, --version                   Print version"]

def Printed.shown : Printed → String
  | help => helpPage
  | text s => s

def causeLines : List String → List String
  | [] => []
  | [cause] => ["", "Caused by:", "    " ++ cause]
  | causes =>
    "" :: "Caused by:" ::
      causes.zipIdx.map fun (cause, n) => "    " ++ toString n ++ ": " ++ cause

def Complaint.shown : Complaint → String
  | arguments none => lines ["error: these arguments make no sense; try --help"]
  | arguments (some message) => lines ["error: " ++ message]
  | failed line causes => lines (line :: causeLines causes)

end KeySubst.CommandLine
