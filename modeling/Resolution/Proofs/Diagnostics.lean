import Resolution.Proofs.FirstContradiction

/-!
# Diagnostics do not change the result

What the program prints, and how the run ends, depends on the content of the file, on the limit and
on whether to stop at a contradiction. The other options only bear on what is said on the side and
on the files to be written (`exit_output_analysis_congr`).

A run that cannot write a file breaks off, so the files must be writable. And one that is told to
write a file over its own standard output does so, so the files must be others than that. A level
that is left without a value breaks the run off too, before the file is looked at; such a run
examines no file (`Request.plan`).
-/

namespace Resolution.CommandLine

variable {σ : Type} {fs : FileSystem σ} {arguments : List String} {files : σ}
  {r r' request : Request} {content : List UInt8}

section Settings

theorem Settings.closure_congr {s s' : Settings} (hlimit : s.maxRounds = s'.maxRounds)
    (hstop : s.stopOnEmpty = s'.stopOnEmpty) (kb : KnowledgeBase) :
    s.closure kb = s'.closure kb := by
  rw [Settings.closure_eq, Settings.closure_eq, hlimit, hstop]

/-- The requests agree on what bears on the closure. -/
structure Request.Agrees (r r' : Request) : Prop where
  maxRounds : r.settings.maxRounds = r'.settings.maxRounds
  bare : .maxRounds ∈ r.bare ↔ .maxRounds ∈ r'.bare
  stopOnEmpty : r.settings.stopOnEmpty = r'.settings.stopOnEmpty

theorem exit_output_analysis_congr (h : r.Agrees r') (content : List UInt8) :
    (r.analysis content).exit = (r'.analysis content).exit
      ∧ (r.analysis content).output = (r'.analysis content).output := by
  unfold Request.analysis
  by_cases hbare : .maxRounds ∈ r.bare
  · rw [if_pos hbare, if_pos (h.bare.mp hbare), analyseOpening, analyseOpening]
    cases Reading.ofBytes content <;> exact ⟨rfl, rfl⟩
  · rw [if_neg hbare, if_neg fun hbare' => hbare (h.bare.mpr hbare'), analyse, analyse]
    rcases Reading.ofBytes content with fault | reading
    · exact ⟨rfl, rfl⟩
    · have hclosure := Settings.closure_congr h.maxRounds h.stopOnEmpty reading.kb
      exact ⟨rfl, congrArg (fun c => Clause.listing c.toList) hclosure⟩

end Settings

section Runs

/-- The arguments ask for a run on a file with this content, and for no files but such as can be
written and are not the standard output. -/
structure Examines (fs : FileSystem σ) (arguments : List String) (files : σ) (request : Request)
    (content : List UInt8) : Prop where
  plan : CommandLine.plan arguments = .examine request
  read : fs.read files request.file = .ok content
  writable : Writable fs files (request.analysis content).exports
  sparesOutput : SparesOutput fs files (request.analysis content).exports

/-- Two command lines for the same content that agree on the limit and on whether to stop at a
contradiction print the same and exit alike, whatever else they ask for. If the file loads, what is
printed is the closure, which begins with the knowledge base; otherwise nothing is printed. -/
theorem run_diagnostics (fs : FileSystem σ) (content : List UInt8)
    (arguments arguments' : List String) (files files' : σ) (request request' : Request)
    (h : Examines fs arguments files request content)
    (h' : Examines fs arguments' files' request' content) (hagree : request.Agrees request') :
    let r := run fs arguments files
    let r' := run fs arguments' files'
    r.output = r'.output ∧ r.exit = r'.exit
      ∧ (∀ reading, Reading.ofBytes content = .ok reading → .maxRounds ∉ request.bare →
        let c := Resolution.closure reading.kb.toList request.settings.maxRounds
          (if request.settings.stopOnEmpty then .onContradiction else .never)
        r.exit = .code 0 ∧ r.output = Clause.listing c.toList ∧ reading.kb.toList <+: c.toList)
      ∧ ∀ fault, Reading.ofBytes content = .error fault → r.exit = .code 1 ∧ r.output = "" := by
  intro r r'
  have hexit : r.exit = (request.analysis content).exit := exit_run h.plan h.read h.writable
  have houtput : r.output = (request.analysis content).output :=
    output_run h.plan h.read h.sparesOutput
  have hexit' : r'.exit = (request'.analysis content).exit := exit_run h'.plan h'.read h'.writable
  have houtput' : r'.output = (request'.analysis content).output :=
    output_run h'.plan h'.read h'.sparesOutput
  obtain ⟨hexits, houtputs⟩ := exit_output_analysis_congr hagree content
  rw [hexit, houtput, hexit', houtput']
  refine ⟨houtputs, hexits, fun reading hloads hbare => ?_, fun fault hloads => ?_⟩
  · intro c
    have hclosure : request.settings.closure reading.kb = c :=
      request.settings.closure_eq reading.kb
    have hprefix : reading.kb.toList <+: c.toList := by
      have hgrown := (grown_toList_closure reading.kb.toList request.settings.maxRounds
        (if request.settings.stopOnEmpty then .onContradiction else .never)).isPrefix
      rwa [toList_ofList_kb hloads] at hgrown
    rw [analysis_of_loads hbare hloads, hclosure]
    exact ⟨rfl, rfl, hprefix⟩
  · rw [Request.analysis, analyse, analyseOpening, hloads, ite_self]
    exact ⟨rfl, rfl⟩

/-- A file in which a contradiction is derived and one that does not load, each with no diagnostics
and with all of them. -/
theorem run_diagnostics_all :
    let file := Utf8.encode "(A)\n((not A) B)\n((not B))\n"
    let broken := Utf8.encode "(A)\n(B\n"
    let files := [("kb.txt", file), ("broken.txt", broken)]
    let run := run .listed
    let all := ["--verbose", "--history", "--report-empty", "--report-subsumed",
      "--log-level=DEBUG", "--dot", "g.dot", "--save", "s.json", "--stop-on-empty"]
    let quiet : Settings := { stopOnEmpty := true }
    let loud : Settings := ⟨none, true, true, true, true, true, "s.json", "g.dot", .debug⟩
    (Examines .listed ["kb.txt", "--stop-on-empty"] files ⟨"kb.txt", quiet, []⟩ file
        ∧ Examines .listed (all ++ ["kb.txt"]) files ⟨"kb.txt", loud, []⟩ file
        ∧ (run (all ++ ["kb.txt"]) files).exit = .code 0
        ∧ (run ["kb.txt", "--stop-on-empty"] files).output = (run (all ++ ["kb.txt"]) files).output
        ∧ (run ["kb.txt", "--stop-on-empty"] files).output = "A\n(not A) B\n(not B)\nB\n(not A)\n")
      ∧ Examines .listed ["broken.txt", "--stop-on-empty"] files ⟨"broken.txt", quiet, []⟩ broken
        ∧ Examines .listed (all ++ ["broken.txt"]) files ⟨"broken.txt", loud, []⟩ broken
        ∧ (run (all ++ ["broken.txt"]) files).exit = .code 1
        ∧ (run ["broken.txt", "--stop-on-empty"] files).exit
          = (run (all ++ ["broken.txt"]) files).exit
        ∧ (run ["broken.txt", "--stop-on-empty"] files).output = "" := by
  intro file broken files run all quiet loud
  have hquiet : Examines .listed ["kb.txt", "--stop-on-empty"] files ⟨"kb.txt", quiet, []⟩ file :=
    ⟨by decide, rfl, writable_listed _ _, sparesOutput_listed _ _⟩
  have hloud : Examines .listed (all ++ ["kb.txt"]) files ⟨"kb.txt", loud, []⟩ file :=
    ⟨by decide, rfl, writable_listed _ _, sparesOutput_listed _ _⟩
  have hquiet' : Examines .listed ["broken.txt", "--stop-on-empty"] files
      ⟨"broken.txt", quiet, []⟩ broken :=
    ⟨by decide, rfl, writable_listed _ _, sparesOutput_listed _ _⟩
  have hloud' : Examines .listed (all ++ ["broken.txt"]) files ⟨"broken.txt", loud, []⟩ broken :=
    ⟨by decide, rfl, writable_listed _ _, sparesOutput_listed _ _⟩
  have hloads : Reading.ofBytes file = .ok ⟨3, .ofList [⟨[⟨true, "A"⟩], [], 0⟩,
    ⟨[⟨false, "A"⟩, ⟨true, "B"⟩], [], 0⟩, ⟨[⟨false, "B"⟩], [], 0⟩]⟩ := rfl
  have hfault : Reading.ofBytes broken = .error ⟨.clause .noClosing, 2, "(B\n"⟩ := rfl
  obtain ⟨houtput, hexits, hresult, -⟩ :=
    run_diagnostics .listed file _ _ files files _ _ hquiet hloud ⟨rfl, Iff.rfl, rfl⟩
  obtain ⟨hexit, hlisting, -⟩ := hresult _ hloads (by decide)
  obtain ⟨-, hexits', -, hfailure⟩ :=
    run_diagnostics .listed broken _ _ files files _ _ hquiet' hloud' ⟨rfl, Iff.rfl, rfl⟩
  obtain ⟨hexit', hnothing⟩ := hfailure _ hfault
  exact ⟨⟨hquiet, hloud, hexits.symm.trans hexit, houtput, hlisting.trans (by decide)⟩, hquiet',
    hloud', hexits'.symm.trans hexit', hexits', hnothing⟩

end Runs

end Resolution.CommandLine
