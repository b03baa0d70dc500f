import Resolution.CommandLine

/-!
# Writing files

The files that a run exports are written one after the other, after all that the program prints. So
what is on the standard output in the end was printed before, unless one of the files is the
standard output itself (`output_performExports`), and the run ends as the analysis says unless one
of them cannot be written (`exit_performExports`).

A write changes the state that the next one meets, so what is asked of the files is asked of one
after the other, and only as far as the run comes (`EachExport`).
-/

namespace Resolution.CommandLine

variable {σ : Type}

/-- `P` holds of each of the writes that export these files, from the first one to one that fails,
whatever stands on the outputs. -/
def EachExport (fs : FileSystem σ) (P : World σ → Except FileError Unit × World σ → Prop) :
    σ → List Export → Prop
  | _, [] => True
  | files, e :: es => ∀ w : World σ, w.files = files → P w (e.write fs w)
      ∧ ((e.write fs w).1 = .ok () → EachExport fs P (e.write fs w).2.files es)

/-- All of the files can be written. -/
def Writable (fs : FileSystem σ) : σ → List Export → Prop :=
  EachExport fs fun _ after => after.1 = .ok ()

/-- None of the files is the standard output: what stands there is left as it is. -/
def SparesOutput (fs : FileSystem σ) : σ → List Export → Prop :=
  EachExport fs fun w after => after.2.output = w.output

variable {fs : FileSystem σ} {exit : Exit}

theorem output_performExports : ∀ {es : List Export} {w : World σ},
    SparesOutput fs w.files es → (performExports fs exit w es).output = w.output
  | [], _, _ => rfl
  | e :: es, w, h => by
    obtain ⟨hspares, hrest⟩ := h w rfl
    unfold performExports
    rcases hwrite : e.write fs w with ⟨failure | ⟨⟩, after⟩ <;> rw [hwrite] at hspares hrest
    · exact hspares
    · exact (output_performExports (w := after.say e.notice) (hrest rfl)).trans hspares

theorem exit_performExports : ∀ {es : List Export} {w : World σ},
    Writable fs w.files es → (performExports fs exit w es).exit = exit
  | [], _, _ => rfl
  | e :: es, w, h => by
    obtain ⟨hwritable, hrest⟩ := h w rfl
    unfold performExports
    rcases hwrite : e.write fs w with ⟨failure | ⟨⟩, after⟩ <;> rw [hwrite] at hwritable hrest
    · cases hwritable
    · exact exit_performExports (w := after.say e.notice) (hrest rfl)

section Runs

variable {arguments : List String} {files : σ} {request : Request} {content : List UInt8}

theorem output_run (hplan : plan arguments = .examine request)
    (hread : fs.read files request.file = .ok content)
    (hspares : SparesOutput fs files (request.analysis content).exports) :
    (run fs arguments files).output = (request.analysis content).output := by
  unfold run
  rw [hplan]
  dsimp only
  rw [hread]
  exact output_performExports (w := ⟨files, _, _⟩) hspares

theorem exit_run (hplan : plan arguments = .examine request)
    (hread : fs.read files request.file = .ok content)
    (hwritable : Writable fs files (request.analysis content).exports) :
    (run fs arguments files).exit = (request.analysis content).exit := by
  unfold run
  rw [hplan]
  dsimp only
  rw [hread]
  exact exit_performExports (w := ⟨files, _, _⟩) hwritable

end Runs

theorem eachExport_listed {P : World (List (String × List UInt8)) →
    Except FileError Unit × World (List (String × List UInt8)) → Prop}
    (hP : ∀ w files, P w (.ok (), { w with files })) : ∀ (es : List Export)
    (files : List (String × List UInt8)), EachExport .listed P files es
  | [], _ => trivial
  | _ :: es, _ => fun w _ => ⟨hP w _, fun _ => eachExport_listed hP es _⟩

theorem writable_listed (files : List (String × List UInt8)) (es : List Export) :
    Writable .listed files es :=
  eachExport_listed (fun _ _ => rfl) es files

theorem sparesOutput_listed (files : List (String × List UInt8)) (es : List Export) :
    SparesOutput .listed files es :=
  eachExport_listed (fun _ _ => rfl) es files

end Resolution.CommandLine
