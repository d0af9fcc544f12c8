import CycleSim.Cache
import CycleSim.Lib.Decimal

/-! `parseArgs` of `sim_cycle.cpp`: the cache configuration file. -/
namespace CycleSim

open Hex (IStream)

/-- `struct CacheConfig`, with the latency the cache does not read. -/
structure ParsedConfig extends CacheConfig where
  missLatency : BitVec 64
  deriving DecidableEq, Repr

/-- The braced list of a `CacheConfig`. Its fields are wider than the numbers of the file. -/
def configOf (cacheSize blockSize ways missLatency : BitVec 32) : ParsedConfig where
  cacheSize := cacheSize.setWidth 64
  blockSize := blockSize.setWidth 64
  ways := ways.setWidth 64
  missLatency := missLatency.setWidth 64

/-- What `parseNextLine` captures. -/
structure ConfigFile where
  line : Nat
  file : IStream
  deriving DecidableEq, Repr

/-- What the exception of `parseNextLine` says. -/
def parseMessage (line : Nat) (name : String) : String :=
  "Failed to parse property at line " ++ toString line ++ " for property " ++ name

/-- `parseNextLine`. -/
def parseNextLine (name : String) (f : ConfigFile) : Except String (BitVec 32 × ConfigFile) :=
  let line := f.line + 1
  let (value, file) := Decimal.extract f.file 0#32
  if file.fail then .error (parseMessage line name)
  else .ok (value, ⟨line, Decimal.discardLine file⟩)

/-- What is logged when the program is not called with two arguments. -/
def usage (argv : List String) : String :=
  "Usage: " ++ argv.headD "" ++ " <file.bin> <cache_config.txt>\nNote:\n" ++
    "The sim_cycle binary should take two command-line arguments indicating the " ++
    "name of the binary file to be read and the cache configuration file to be " ++
    "used. [See detail in project description document]."

/-- The properties of the file, in order. -/
def parseProperties (f : ConfigFile) : Except String (ParsedConfig × ParsedConfig) := do
  let (icSize, f) ← parseNextLine "ICache cache size" f
  let (icBlock, f) ← parseNextLine "ICache block size" f
  let (icWays, f) ← parseNextLine "ICache ways" f
  let (icLatency, f) ← parseNextLine "ICache miss latency" f
  let (dcSize, f) ← parseNextLine "DCache cache size" f
  let (dcBlock, f) ← parseNextLine "DCache block size" f
  let (dcWays, f) ← parseNextLine "DCache ways" f
  let (dcLatency, _) ← parseNextLine "DCache miss latency" f
  return (configOf icSize icBlock icWays icLatency, configOf dcSize dcBlock dcWays dcLatency)

/-- `parseArgs`; `files` gives the text of a file that can be opened. An error is what is logged
before `exit(ERROR)`. -/
def parseArgs (argv : List String) (files : String → Option String) :
    Except String (String × ParsedConfig × ParsedConfig) :=
  match argv with
  | [_, inputFile, cacheFile] =>
    match files cacheFile with
    | some text => do
      let configs ← parseProperties ⟨0, ⟨text.toList, false⟩⟩
      return (inputFile, configs)
    | none => .error ("Failed to open cache config file: " ++ cacheFile)
  | _ => .error (usage argv)

end CycleSim
