import CppDeps.Cycle.Limits

/-!
# Settings of an analysis
-/

namespace CppDeps

/-- The settings of an analysis. -/
structure AnalysisConfig where
  /-- The names of directories that are passed over anywhere below the root. -/
  excludeDirs : List String := ["build", "cmake-build", ".git", "node_modules"]
  /-- The extensions of the files to analyse, without their dots. -/
  extensions : List String := ["cpp", "cc", "cxx", "c", "h", "hpp", "hh"]
  cycles : CycleLimits := {}
  /-- How many of the most coupled files to report. -/
  topCoupled : Nat := 10
  deriving DecidableEq, Repr

/-- The name of the file in an analysed directory that may hold its settings. -/
def configFileName : String := "cppgraph.toml"

end CppDeps
