import Ymf262.Proofs.History
import Ymf262.Proofs.RegisterFile

/-! What a run has programmed. The file of a history holds the last value of each register since
the last reset, under any of its names. After every run the chip holds that file, since neither
synthesis nor the latch of the bus reaches a stored field. -/
namespace Ymf262

/-- The last value written to a register, zero before the first one. -/
def programmed (history : List Met) (r : Register) : Byte :=
  match Met.last? (fun m => Register.ofAddress? m.write.address = some r) history with
  | some m => m.write.value
  | none => 0

variable {history : List Met} {m : Met}

theorem programmed_concat (history : List Met) (m : Met) (r : Register) :
    programmed (history ++ [m]) r =
      if Register.ofAddress? m.write.address = some r then m.write.value
      else programmed history r := by
  rw [programmed, Met.last?_concat]
  by_cases named : Register.ofAddress? m.write.address = some r
  · rw [if_pos named, if_pos named]
  · rw [if_neg named, if_neg named, programmed]

theorem programmed_of_none (h : Register.ofAddress? m.write.address = none) :
    programmed (history ++ [m]) = programmed history := by
  ext r
  rw [programmed_concat, h, if_neg (by simp)]

theorem programmed_of_some {q : Register} (h : Register.ofAddress? m.write.address = some q) :
    programmed (history ++ [m]) = written (programmed history) q m.write.value := by
  ext r
  rw [programmed_concat, h, written]
  simp only [Option.some.injEq, eq_comm (a := q)]

theorem Operator.put_synthesis {o : Operator} {kind : OperatorRegister} {k : UInt32} {v : Byte}
    (h : o.put kind k v = o) (phase : UInt32) (envelope : EnvelopePhase) (volume : UInt16) :
    ({ o with phase, envelope, volume }).put kind k v = { o with phase, envelope, volume } := by
  have same := congrArg (fun p : Operator => { p with phase, envelope, volume }) h
  cases kind <;> exact same

namespace Chip

variable {c : Chip} {file : Register → Byte}

theorem Holds.latch (h : Holds file c) (a : UInt16) : Holds file { c with address := a } :=
  ⟨h.opl3Mode, h.marks, h.rhythmMode, h.amDepth, h.vibratoDepth, h.noteSelect, h.words,
    h.operators, h.connections⟩

theorem Holds.synthesize (h : Holds file c) (t : Synthesis) : Holds file (c.synthesize t) := by
  obtain ⟨a, b, globals⟩ := globals_synthesize (c := c) t
  have stored := congrArg (fun d : Chip =>
    (d.opl3Mode, d.rhythmMode, d.amDepth, d.vibratoDepth, d.noteSelectValue)) globals
  simp only [Chip.globals, Prod.mk.injEq] at stored
  obtain ⟨mode, rhythm, am, vibrato, noteSelect⟩ := stored
  refine ⟨mode.trans h.opl3Mode, fun ch => (extended_synthesize t ch).trans (h.marks ch),
    rhythm.trans h.rhythmMode, am.trans h.amDepth, vibrato.trans h.vibratoDepth,
    noteSelect.trans h.noteSelect, ?_, ?_, ?_⟩
  · intro ch
    rw [tuning_synthesize, h.words]
  · intro kind s
    obtain ⟨phase, envelope, volume, same⟩ := operator_synthesize (c := c) t s
    rw [same, settings_synthesize]
    exact Operator.put_synthesis (h.operators kind s) phase envelope volume
  · intro s
    obtain ⟨phase, envelope, volume, same⟩ := operator_synthesize (c := c) t s
    rw [same]
    exact congrArg (fun p : Operator => { p with phase, envelope, volume }) (h.connections s)

theorem traced_programmed (settings : Settings) :
    Traced settings fun history c => Holds (programmed history) c where
  idle := holds_idle settings
  write history c w coherent h := by
    cases named : Register.ofAddress? w.address with
    | none =>
      rw [write_of_none named, programmed_of_none named]
      exact h
    | some q =>
      rw [write_of_some named, programmed_of_some named, store_eq coherent]
      exact (h.put q w.value).rederive
  latch history c a h := h.latch a

theorem holds_run (settings : Settings) (actions : List Action) :
    Holds (programmed ((fresh settings).history actions)) ((fresh settings).run actions) :=
  traced_run (traced_programmed settings) actions fun _ t _ h => h.synthesize t

end Chip

end Ymf262
