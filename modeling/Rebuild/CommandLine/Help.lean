import Rebuild.Text.Split

namespace Rebuild.CommandLine

def programName : String := "pcc-make"

inductive CommandName
  | status
  | externs
  | paths
  deriving DecidableEq, Repr

namespace CommandName

def all : List CommandName := [status, externs, paths]

def text : CommandName → String
  | status => "status"
  | externs => "externs"
  | paths => "paths"

def ofText? (s : String) : Option CommandName :=
  all.find? fun c => c.text == s

end CommandName

def ofLines (lines : List String) : String :=
  Text.join "\n" lines ++ "\n"

def mainUsage : String := ofLines [
  "usage: pcc-make [-h] [--header-ext HEADER_EXT] [--impl-ext IMPL_EXT]",
  "                [--other-ext EXT]",
  "                \x7bstatus,externs,paths\x7d ..."]

def CommandName.usage : CommandName → String
  | status => ofLines [
    "usage: pcc-make status [-h] [--always]",
    "                       output MODULE[=SOURCE] [MODULE[=SOURCE] ...]"]
  | externs => ofLines ["usage: pcc-make externs [-h] output module"]
  | paths => ofLines ["usage: pcc-make paths [-h] output module"]

def mainHelp : String := mainUsage ++ ofLines [
  "",
  "pcc incremental build helper",
  "",
  "positional arguments:",
  "  \x7bstatus,externs,paths\x7d",
  "    status              Report which modules need a rebuild",
  "    externs             Print a module's persisted externs",
  "    paths               Print the output paths for a module",
  "",
  "options:",
  "  -h, --help            show this help message and exit",
  "  --header-ext HEADER_EXT",
  "                        Header file extension",
  "  --impl-ext IMPL_EXT   Implementation file extension",
  "  --other-ext EXT       Extra foreign companion extension (repeatable)"]

/-- The arguments and options that each command explains below its usage. -/
def CommandName.explanation : CommandName → String
  | status => ofLines [
    "",
    "positional arguments:",
    "  output           Output directory",
    "  MODULE[=SOURCE]  Module name, optionally with its source file",
    "",
    "options:",
    "  -h, --help       show this help message and exit",
    "  --always         Rebuild modules without a source file unconditionally"]
  | externs | paths => ofLines [
    "",
    "positional arguments:",
    "  output      Output directory",
    "  module      Module name",
    "",
    "options:",
    "  -h, --help  show this help message and exit"]

def CommandName.help (c : CommandName) : String :=
  c.usage ++ c.explanation

end Rebuild.CommandLine
