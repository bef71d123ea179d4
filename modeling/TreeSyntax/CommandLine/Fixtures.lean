import TreeSyntax.CommandLine.Run
import TreeSyntax.Files.Search
import TreeSyntax.Load.Fixture
import TreeSyntax.Text.Styled

/-!
# The fixture runner

Every file that one of the patterns matches is a fixture, as often as it is matched.  The
fixtures run in the order of their paths until one of them does not load.  The patterns are given:
there are none to fall back on when there are none.
-/

namespace TreeSyntax.CommandLine

/-! ## Paths -/

def matchesOf (files : FileTree) : List String → Except (List String) (List String)
  | [] => .ok []
  | pattern :: patterns =>
      match Glob.expand files pattern with
      | .error error => .error ["bad glob pattern " ++ pattern, error.message]
      | .ok paths => (matchesOf files patterns).map (paths ++ ·)

def fixturePaths (files : FileTree) (patterns : List String) :
    Except (List String) (List String) :=
  (matchesOf files patterns).map fun paths => paths.mergeSort PathText.atMost

/-! ## Fixtures -/

def fixtureLines (coloured : Bool) (path : String) (fixture : Fixture) : String :=
  if fixture.passes then Text.styled coloured .green "✅" ++ " " ++ path ++ "\n"
  else
    Text.styled coloured .red "❌" ++ " " ++ path ++ " — " ++ fixture.description ++ "\n" ++
      "    expected: " ++ fixture.expect.toJson.compact ++ "\n" ++
      "    actual:   " ++ fixture.actual.toJson.compact ++ "\n"

/-- The fixtures up to the first that does not load, and the error of that one. -/
def loadFixtures (files : FileTree) :
    List String → List (String × Fixture) × Option LoadError
  | [] => ([], none)
  | path :: paths =>
      match loadFixture files path with
      | .error error => ([], some error)
      | .ok fixture =>
          let rest := loadFixtures files paths
          ((path, fixture) :: rest.1, rest.2)

def failedCount (fixtures : List (String × Fixture)) : Nat :=
  (fixtures.filter fun entry => !entry.2.passes).length

def fixtureSummary (fixtures : List (String × Fixture)) : String :=
  s!"—— {fixtures.length} fixtures, {failedCount fixtures} failed ——\n"

def runPaths (files : FileTree) (coloured : Bool) (paths : List String) : Run :=
  let (fixtures, error) := loadFixtures files paths
  let lines := String.join (fixtures.map fun entry => fixtureLines coloured entry.1 entry.2)
  match error with
  | some error =>
      let ending := Run.ofErrors files error.chain
      { ending with errors := lines ++ ending.errors }
  | none =>
      ⟨if failedCount fixtures = 0 then Run.succeeded else Run.failed, "",
        lines ++ fixtureSummary fixtures, files⟩

def runFixtures (files : FileTree) (coloured : Bool) (patterns : List String) : Run :=
  match fixturePaths files patterns with
  | .error messages => .ofErrors files messages
  | .ok paths => runPaths files coloured paths

end TreeSyntax.CommandLine
