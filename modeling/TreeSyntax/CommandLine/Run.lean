import TreeSyntax.Files.FileTree

/-!
# Runs

What a program run leaves behind: its exit code, what it printed, and the file tree.  Log lines are
left out: how much is logged decides neither the code nor the report, and what a validation would
log is a list of events of its own.
-/

namespace TreeSyntax.CommandLine

structure Run where
  exitCode : Nat
  output : String
  errors : String
  files : FileTree
  deriving DecidableEq

namespace Run

def succeeded : Nat := 0

def failed : Nat := 1

def misused : Nat := 2

def ofErrors (files : FileTree) (messages : List String) : Run :=
  ⟨failed, "", "error: " ++ Text.joined ": " messages ++ "\n", files⟩

end Run

end TreeSyntax.CommandLine
