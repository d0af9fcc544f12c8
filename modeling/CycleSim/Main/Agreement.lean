import CycleSim.Main
import CycleSim.Dump.Readback
import CycleSim.Memory.Loader
import CycleSim.Pipeline.InstructionCount

/-! The two programs on one binary.

Both load the same memory, and a run that does not modify itself leaves both simulators with
the same registers and memory, so their register and memory files are the same text
(`mains_agree`). -/
namespace CycleSim

/-! ### The memory they load -/

theorem CreateFrom.unique {image : Option String} {file : Option (List (BitVec 8))}
    {startAddr : BitVec 64} {numEntries : Nat} {mem mem' : MemoryStore}
    (h : CreateFrom image file startAddr numEntries mem)
    (h' : CreateFrom image file startAddr numEntries mem') : mem = mem' := by
  obtain ⟨filled, status, hprepare, hload⟩ := h
  obtain ⟨filled', status', hprepare', hload'⟩ := h'
  obtain rfl : filled = filled' := (Prod.mk.inj (Loop.Yields.unique hprepare hprepare')).2
  exact (Prod.mk.inj (Option.some.inj (hload.symm.trans hload'))).2

/-- A binary of 64 KB is the memory. -/
theorem loadMemory_image {files : Files} {inputFile : String} (image : MemoryImage)
    (hnone : files.text "init_mem_image" = none)
    (hbinary : files.binary inputFile = some image.bytes) :
    LoadMemory files inputFile image.store := by
  have hlen : MemoryStore.empty.memArr.length ≤ MemoryStore.maxEntries :=
    MemoryStore.empty_length_le
  obtain ⟨hstart, hlength⟩ := MemoryStore.loadLoop_shape hlen 0 image.bytes
  have hsize : image.bytes.length = memorySize := image.length_eq
  have hempty : MemoryStore.empty.memArr.length = memorySize := List.length_replicate
  have hkb : memorySize = 65536 := rfl
  have hbytes : (loadLoop 0 image.bytes .empty).memArr = image.bytes := by
    refine List.ext_getElem? (fun i => ?_)
    by_cases hi : i < memorySize
    · have hoff : MemoryStore.empty.offset (BitVec.ofNat 64 i) = i := by
        show (BitVec.ofNat 64 i - 0#64).toNat = i
        rw [BitVec.sub_zero, BitVec.toNat_ofNat]
        omega
      have hload := MemoryStore.loadLoop_byte hlen 0 image.bytes (by omega) (BitVec.ofNat 64 i)
        (by omega)
      rw [hoff] at hload
      rw [hload, BitVec.toNat_ofNat, Nat.mod_eq_of_lt (by omega), if_pos (by omega), Nat.sub_zero]
    · rw [List.getElem?_eq_none (by omega), List.getElem?_eq_none (by omega)]
  refine ⟨.empty, .success, ?_, ?_⟩
  · rw [hnone]
    exact .exit rfl
  · rw [hbinary, MemoryStore.loadFromFile_eq _ (by omega)]
    have hstore : loadLoop 0 image.bytes .empty = image.store :=
      congrArg₂ MemoryStore.mk hstart hbytes
    rw [hstore]

/-! ### The dumps of an image -/

theorem IsImage.rangeInside {memRange : Option String} {memory memory' : MemoryStore}
    (h : IsImage memory) (h' : IsImage memory') (hin : RangeInside memRange memory) :
    RangeInside memRange memory' where
  length_le := h'.length_le
  start_le := by
    have hstart := hin.start_le
    rwa [h.startAddr, ← h'.startAddr] at hstart
  ordered := hin.ordered
  inside := by
    intro a ha
    have hword := hin.inside a ha
    unfold MemoryStore.InBounds at hword ⊢
    rwa [h.offset, h.length, ← h'.length, ← h'.offset] at hword

/-- A range that ends in the 64 KB. -/
theorem IsImage.rangeInside_of_le {memRange : Option String} {memory : MemoryStore}
    (h : IsImage memory) (hle : (printRange memRange).1 ≤ (printRange memRange).2)
    (hend : (printRange memRange).2.toNat + 3 ≤ memorySize) : RangeInside memRange memory where
  length_le := h.length_le
  start_le := by
    rw [h.startAddr, BitVec.le_def]
    exact Nat.zero_le _
  ordered := hle
  inside := by
    intro a ha
    simp only [printedWords, MemoryStore.entries, MemoryStore.entriesFrom, List.mem_map,
      List.mem_range] at ha
    obtain ⟨i, hi, rfl⟩ := ha
    rw [MemoryStore.lt_entryCount_iff _ _ (by decide)] at hi
    have hkb : memorySize = 65536 := rfl
    rw [MemoryStore.InBounds, h.offset, h.length, BitVec.toNat_add, BitVec.toNat_ofNat]
    show _ + 4 ≤ _
    omega

/-- Two simulators with the same registers and memory leave the same files, but for counters. -/
theorem Finalize.agree {memRange : Option String} {s s' : Simulator}
    {stats stats' : SimulationStats} {out out' : Output} (hin : RangeInside memRange s.memory)
    (hregs : s.regData = s'.regData) (hmem : s.memory = s'.memory)
    (h : Finalize memRange s stats out) (h' : Finalize memRange s' stats' out') :
    out.regState = out'.regState ∧ out.memState = out'.memState := by
  obtain ⟨hreg, hdump, _⟩ := h
  obtain ⟨hreg', hdump', _⟩ := h'
  refine ⟨by rw [hreg, hreg', hregs], ?_⟩
  exact (hdump.eq_iff hin (hmem ▸ hin) hdump').mpr (fun a _ => by rw [hmem])

theorem Finalize.unique {memRange : Option String} {s : Simulator} {stats : SimulationStats}
    {out out' : Output} (hin : RangeInside memRange s.memory) (h : Finalize memRange s stats out)
    (h' : Finalize memRange s stats out') : out = out' := by
  obtain ⟨hreg, hmem⟩ := h.agree hin rfl rfl h'
  have hstats : out.simStats = out'.simStats := h.2.2.trans h'.2.2.symm
  cases out
  cases out'
  exact (Output.mk.injEq ..).mpr ⟨hreg, hmem, hstats⟩

/-! ### The programs -/

section
variable {files : Files} {inputFile : String} {image : MemoryImage} {k : Nat}
variable (hload : LoadMemory files inputFile image.store)
variable (hrange : RangeInside (files.text "print_mem_range") image.store)
variable (hreach : Funct.Reaches image k) (hh : (Funct.executed image k).isHalt = true)
include hload hrange hreach hh

/-- What `sim_funct` leaves. -/
theorem Funct.main_iff (argv0 : String) (rest : List String) :
    ∃ out, Finalize (files.text "print_mem_range") (stateAt image (k + 1)).simulator
        ⟨BitVec.ofNat 64 (k + 1), 0#64, 0#64, 0#64, 0#64, 0#64, 0#64⟩ out ∧
      ∀ status written, Main (argv0 :: inputFile :: rest) files status written ↔
        status = .halt ∧ written = out.files (getBaseFilename inputFile ++ "_funct") := by
  have hrun := runTillHalt_yields hreach hh
  have hin := (@memory_isImage image 0).rangeInside (@memory_isImage image (k + 1)) hrange
  obtain ⟨out, hout⟩ :=
    hin.finalizes ⟨BitVec.ofNat 64 (k + 1), 0#64, 0#64, 0#64, 0#64, 0#64, 0#64⟩
  have hfinal : FinalizeSimulator (files.text "print_mem_range") (stateAt image (k + 1)) out := by
    rw [FinalizeSimulator, Funct.din_eq]
    exact hout
  refine ⟨out, hout, fun status written => ⟨?_, ?_⟩⟩
  · rintro ⟨mem, s, out', hmem, hs, hout', rfl⟩
    obtain rfl := hmem.unique hload
    obtain ⟨rfl, rfl⟩ := Prod.mk.inj (hs.unique hrun)
    obtain rfl := Finalize.unique hin hfinal hout'
    exact ⟨rfl, rfl⟩
  · rintro ⟨rfl, rfl⟩
    exact ⟨image.store, _, out, hload, hrun, hfinal, rfl⟩

variable {configFile argv0 : String} {ic dc : ParsedConfig}
variable (hself : NoSelfModification image)
variable (hargs : parseArgs [argv0, inputFile, configFile] files.text = .ok (inputFile, ic, dc))
variable (hic : ic.Divides) (hdc : dc.Divides)
include hself hargs hic hdc

/-- What `sim_cycle` leaves. -/
theorem main_iff :
    ∃ out, Finalize (files.text "print_mem_range")
        (machineAt image (entry image k + 3)).simulator
        ⟨BitVec.ofNat 64 (k + 1 + (4 + takenCount image k + branchWaits image k)),
          BitVec.ofNat 64 (entry image k + 3), 0#64, 0#64, 0#64, 0#64, 0#64⟩ out ∧
      ∀ status written, Main [argv0, inputFile, configFile] files status written ↔
        status = .halt ∧ written =
          (getBaseFilename inputFile ++ "_cycle_pipe_state.out",
            String.join ((List.range (entry image k + 3)).map
              (fun i => dumpPipeState (dumpAt image i)))) ::
          out.files (getBaseFilename inputFile ++ "_cycle") := by
  obtain ⟨hbefore, hwb⟩ := halt_passes_wb hself hreach hh
  have hrun := runTillHalt_dumps (fun i hi => hbefore i (Nat.lt_succ_of_le hi)) hwb
  have hfinalArch := final_state hself hreach hh hbefore hwb
  have himage : IsImage (machineAt image (entry image k + 3)).simulator.memory := by
    rw [show (machineAt image (entry image k + 3)).simulator.memory = _ from
      congrArg Arch.memory hfinalArch]
    exact Funct.memory_isImage (k + 1)
  have hin := (@Funct.memory_isImage image 0).rangeInside himage hrange
  obtain ⟨out, hout⟩ := hin.finalizes
    ⟨BitVec.ofNat 64 (k + 1 + (4 + takenCount image k + branchWaits image k)),
      BitVec.ofNat 64 (entry image k + 3), 0#64, 0#64, 0#64, 0#64, 0#64⟩
  have hfinal : FinalizeSimulator (files.text "print_mem_range") (.create ic.toCacheConfig)
      (.create dc.toCacheConfig) (machineAt image (entry image k + 3)) out := by
    rw [FinalizeSimulator, cycleCount_eq, din_at_halt hself hreach hh]
    exact hout
  have hmap : (List.range (entry image k + 3)).map (fun i => dumpPipeState (dumpAt image i)) =
      ((List.range (entry image k + 2 + 1)).map (dumpAt image)).map dumpPipeState := by
    rw [List.map_map]
    rfl
  refine ⟨out, hout, fun status written => ?_⟩
  rw [hmap]
  simp only [Main, hargs]
  constructor
  · rintro ⟨mem, dumps, m, out', hmem, -, -, hm, hout', rfl⟩
    obtain rfl := hmem.unique hload
    obtain ⟨rfl, hr⟩ := Prod.mk.inj (hm.unique hrun)
    obtain ⟨rfl, rfl⟩ := Prod.mk.inj hr
    obtain rfl := Finalize.unique hin hfinal hout'
    exact ⟨rfl, rfl⟩
  · rintro ⟨rfl, rfl⟩
    exact ⟨image.store, _, _, out, hload, hic, hdc, hrun, hfinal, rfl⟩

/-- **One binary, two programs.** On a program that comes to HALT and does not modify itself,
both programs exit with HALT and one set of files each. The register and memory files are the
same text; `sim_cycle` counts the cycles of the schedule, one line of its trace each, and no
access to a cache. -/
theorem mains_agree (argv1 : String) (rest : List String) : ∃ (out out' : Output) (pipe : String),
    (∀ status written, Funct.Main (argv1 :: inputFile :: rest) files status written ↔
      status = .halt ∧ written = out.files (getBaseFilename inputFile ++ "_funct")) ∧
    (∀ status written, Main [argv0, inputFile, configFile] files status written ↔
      status = .halt ∧ written = (getBaseFilename inputFile ++ "_cycle_pipe_state.out", pipe) ::
        out'.files (getBaseFilename inputFile ++ "_cycle")) ∧
    out.regState = out'.regState ∧ out.memState = out'.memState ∧
    out.simStats = dumpSimStats ⟨BitVec.ofNat 64 (k + 1), 0#64, 0#64, 0#64, 0#64, 0#64, 0#64⟩ ∧
    out'.simStats = dumpSimStats
      ⟨BitVec.ofNat 64 (k + 1 + (4 + takenCount image k + branchWaits image k)),
        BitVec.ofNat 64 (entry image k + 3), 0#64, 0#64, 0#64, 0#64, 0#64⟩ ∧
    pipe = String.join ((List.range (entry image k + 3)).map
      (fun i => dumpPipeState (dumpAt image i))) := by
  obtain ⟨out, hout, hmain⟩ := Funct.main_iff hload hrange hreach hh argv1 rest
  obtain ⟨out', hout', hmain'⟩ := main_iff hload hrange hreach hh hself hargs hic hdc
  obtain ⟨hbefore, hwb⟩ := halt_passes_wb hself hreach hh
  have harch := final_state hself hreach hh hbefore hwb
  have hin := (@Funct.memory_isImage image 0).rangeInside (@Funct.memory_isImage image (k + 1)) hrange
  obtain ⟨hreg, hmem⟩ := hout.agree hin (congrArg Arch.regs harch).symm
    (congrArg Arch.memory harch).symm hout'
  exact ⟨out, out', _, hmain, hmain', hreg, hmem, hout.2.2, hout'.2.2, rfl⟩

end

/-- The small program, with the files beside it. -/
def sampleFiles : Files where
  text := fun name => if name = "cache.txt" then some "2048\n16\n2\n5\n4096\n16\n4\n8\n" else none
  binary := fun name => if name = "sample.bin" then some sampleImage.bytes else none

theorem mains_agree_sample : ∃ (out : Output) (written : List Written),
    Funct.Main ["sim_funct", "sample.bin"] sampleFiles .halt (out.files "sample_funct") ∧
    Main ["sim_cycle", "sample.bin", "cache.txt"] sampleFiles .halt written ∧
    ("sample_cycle_reg_state.out", out.regState) ∈ written ∧
    ("sample_cycle_mem_state.out", out.memState) ∈ written := by
  have hload : LoadMemory sampleFiles "sample.bin" sampleImage.store :=
    loadMemory_image sampleImage rfl rfl
  have hrange : RangeInside (sampleFiles.text "print_mem_range") sampleImage.store :=
    (@Funct.memory_isImage sampleImage 0).rangeInside_of_le (by decide) (by decide)
  have hargs : parseArgs ["sim_cycle", "sample.bin", "cache.txt"] sampleFiles.text =
      .ok ("sample.bin", configOf 2048 16 2 5, configOf 4096 16 4 8) := by decide
  obtain ⟨out, out', pipe, hfunct, hcycle, hreg, hmem, _⟩ := mains_agree hload hrange
    sampleImage_reaches sampleImage_halts sampleImage_noSelfModification hargs
    (show CacheConfig.Divides _ by unfold CacheConfig.Divides; decide)
    (show CacheConfig.Divides _ by unfold CacheConfig.Divides; decide) "sim_funct" []
  have hbase : getBaseFilename "sample.bin" = "sample" := by decide
  rw [hbase] at hfunct hcycle
  refine ⟨out, _, (hfunct _ _).mpr ⟨rfl, rfl⟩, (hcycle _ _).mpr ⟨rfl, rfl⟩, ?_, ?_⟩
  · rw [hreg]
    exact .tail _ (.head _)
  · rw [hmem]
    exact .tail _ (.tail _ (.head _))

end CycleSim
