import BitMachine.CommandLine.Arguments

/-! What the command line says about itself. -/

set_option autoImplicit false

namespace BitMachine.CommandLine

def programName : String := "bitlang"

def usage : String :=
  "usage: " ++ programName ++ " [-h] [-v] [--emit-ast BIT_FILE | --ast AST_JSON_FILE] [--ascii]\n" ++
  "               [--input BITS] [--indirect-goto] [--legacy-guards]\n" ++
  "               [--max-steps N] [--lark]\n" ++
  "               [program]\n"

def helpText : String :=
  usage ++
  "\n" ++
  "BIT language interpreter\n" ++
  "\n" ++
  "positional arguments:\n" ++
  "  program              BIT program file (.bit) to execute, or - for stdin\n" ++
  "\n" ++
  "options:\n" ++
  "  -h, --help           show this help message and exit\n" ++
  "  -v                   increase debug verbosity (can be repeated)\n" ++
  "  --emit-ast BIT_FILE  emit program graph JSON for the given .bit file\n" ++
  "  --ast AST_JSON_FILE  execute a program graph from a JSON file\n" ++
  "  --ascii              print every eight bits as one character\n" ++
  "  --input BITS         bits consumed by READ, e.g. 0110\n" ++
  "  --indirect-goto      dereference GOTO VARIABLE targets through memory\n" ++
  "  --legacy-guards      use magnitude-based operator checks\n" ++
  "  --max-steps N        abort after executing N lines\n" ++
  "  --lark               parse with the grammar-driven front end\n"

namespace UsageError

def report (error : UsageError) : String :=
  usage ++ programName ++ ": error: " ++ error.message ++ "\n"

end UsageError

end BitMachine.CommandLine
