import CycleSim.Config
import CycleSim.Dump

/-! `sim_funct.cpp` and `sim_cycle.cpp`: the two programs, from their arguments and the files
they read to their exit status and the files they write. What they log is left out. -/
namespace CycleSim

/-- The files that can be read, as text or as bytes. -/
structure Files where
  text : String → Option String
  binary : String → Option (List (BitVec 8))

/-- `getBaseFilename`: the path up to its last dot. -/
def getBaseFilename (path : String) : String :=
  match path.toList.reverse.dropWhile (fun c => c != '.') with
  | [] => path
  | _ :: base => String.ofList base.reverse

/-- A file that is written: its name and its contents. -/
abbrev Written := String × String

/-- The files of `finalizeSimulator`. -/
def Output.files (out : Output) (baseFilename : String) : List Written :=
  [(baseFilename ++ "_reg_state.out", out.regState),
    (baseFilename ++ "_mem_state.out", out.memState),
    (baseFilename ++ "_sim_stats.out", out.simStats)]

/-- `new MemoryStore(0, MEMORY_SIZE, argv[1])`. -/
def LoadMemory (files : Files) (inputFile : String) (mem : MemoryStore) : Prop :=
  CreateFrom (files.text "init_mem_image") (files.binary inputFile) 0#64 memorySize mem

/-- `main` of `sim_funct.cpp` returns, with this status and these files. -/
def Funct.Main (argv : List String) (files : Files) (status : Status) (written : List Written) :
    Prop :=
  match argv with
  | _ :: inputFile :: _ =>
    ∃ mem s out, LoadMemory files inputFile mem ∧
      Loop.Yields runTillHaltBody (initSimulator mem) (status, s) ∧
      FinalizeSimulator (files.text "print_mem_range") s out ∧
      written = out.files (getBaseFilename inputFile ++ "_funct")
  | _ => status = .error ∧ written = []

/-- `computeGeometry` divides by this product. -/
def CacheConfig.Divides (config : CacheConfig) : Prop := config.blockSize * config.ways ≠ 0#64

/-- `main` of `sim_cycle.cpp` exits, with this status and these files. -/
def Main (argv : List String) (files : Files) (status : Status) (written : List Written) : Prop :=
  match parseArgs argv files.text with
  | .error _ => status = .error ∧ written = []
  | .ok (inputFile, iCacheConfig, dCacheConfig) =>
    ∃ mem dumps m out, LoadMemory files inputFile mem ∧
      iCacheConfig.Divides ∧ dCacheConfig.Divides ∧
      Loop.Yields runTillHaltBody ([], initSimulator mem) (status, dumps, m) ∧
      FinalizeSimulator (files.text "print_mem_range") (.create iCacheConfig.toCacheConfig)
        (.create dCacheConfig.toCacheConfig) m out ∧
      written =
        (getBaseFilename inputFile ++ "_cycle_pipe_state.out",
          String.join (dumps.map dumpPipeState)) ::
        out.files (getBaseFilename inputFile ++ "_cycle")

end CycleSim
