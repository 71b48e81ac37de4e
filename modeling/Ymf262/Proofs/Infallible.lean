import Ymf262.Proofs.GuardedWrite
import Ymf262.Proofs.Programmed

/-! The register engine never fails. Bounds hold of a chip in the midst of a reset and are kept by
every action, so that the guarded chip runs through every register write, those of resets and
players included, and ends where the chip does. -/
namespace Ymf262

/-- A zero nibble alone stays among the indices that take infinite time. -/
theorem Rate.code_add_lt_iff {nibble ksr : Nat} (h : ksr < 16) :
    code nibble + ksr < 16 ↔ nibble = 0 := by
  rw [code]
  split <;> omega

namespace Operator

variable {o : Operator}

theorem Bounded.put (h : o.Bounded) (kind : OperatorRegister) (k : UInt32) (v : Byte) :
    (o.put kind k v).Bounded := by
  have range := h.toInRange.put kind k v
  cases kind with
  | tone => exact h.writeTone k v
  | level => exact h.writeLevel v
  | attackDecay | sustainRelease | waveform => exact ⟨range, h.ksr, h.ksrShift, h.kslShift⟩

theorem Bounded.derive (h : o.Bounded) {x : Context} (pitch : x.pitch.InRange) :
    (o.derive x).Bounded where
  toInRange := ⟨h.attackCode, h.decayCode, h.releaseCode, h.totalLevel⟩
  ksr := pitch.ksr_lt _
  ksrShift := h.ksrShift
  kslShift := h.kslShift

theorem amAttenuation_parts (h : o.attenuation < 32768) :
    o.amAttenuation.testBit 15 = o.am ∧ o.amAttenuation % 32768 = o.attenuation := by
  have upper : (o.attenuation + 32768 * o.am.toNat) / 2 ^ 15 = o.am.toNat := by omega
  rw [amAttenuation, Nat.testBit_eq_decide_div_mod_eq, upper]
  refine ⟨?_, by omega⟩
  cases o.am <;> rfl

end Operator

namespace Chip

def writeAll? (c : Chip) (ws : List RegisterWrite) : Option Chip :=
  ws.foldlM (fun c w => c.write? w.address w.value) c

def reset? (c : Chip) : Option Chip := do
  let swept ← (zero c.settings).writeAll? resetWrites
  return swept.silence

def act? (c : Chip) : Action → Option Chip
  | .write w => c.write? w.address w.value
  | .bus lines v =>
    if lines.bit 0 then c.write? c.address v
    else some { c with address := c.latch (lines.bit 1) v }
  | .reset => c.reset?
  | .tick player => c.writeAll? (player.due.map Imf.Record.write)
  | .synthesis t => some (c.synthesize t)

def run? (c : Chip) (actions : List Action) : Option Chip := actions.foldlM act? c

variable {c : Chip} {settings : Settings}

theorem writeAll?_eq {P : Chip → Prop} {ws : List RegisterWrite} (bounded : ∀ c, P c → c.Bounded)
    (keeps : ∀ c, P c → ∀ w ∈ ws, P (c.write w.address w.value)) (h : P c) :
    c.writeAll? ws = some (c.writeAll ws) := by
  induction ws generalizing c with
  | nil => rfl
  | cons w ws ih =>
    have first := write?_eq (bounded c h) w.address w.value
    have rest := ih (fun d hd u hu => keeps d hd u (List.mem_cons_of_mem _ hu))
      (keeps c h w List.mem_cons_self)
    rw [writeAll?, List.foldlM_cons, first]
    exact rest

/-- In the midst of a reset a chip is not coherent, so that its bounds come from the closed form. -/
theorem bounded_swept (volume : UInt16) (done : List Register) :
    (swept settings volume done).Bounded where
  operators s := by
    rw [operator_swept]
    refine ⟨⟨⟨0, by decide, rfl⟩, ⟨0, by decide, rfl⟩, ⟨0, by decide, rfl⟩, Nat.zero_le _⟩,
      Nat.zero_lt_succ _, ?_, ?_⟩
    · simp only [Operator.swept]
      split <;> decide
    · simp only [Operator.swept]
      split <;> decide
  tunings ch := by
    rw [tuning_swept]
    exact ⟨by decide, by decide, by decide⟩

theorem reset?_eq (c : Chip) : c.reset? = some c.reset := by
  have writes : (zero c.settings).writeAll? resetWrites =
      some ((zero c.settings).writeAll resetWrites) := by
    refine writeAll?_eq (P := fun d => ∃ done, d = swept c.settings 0 done) ?_ ?_
      ⟨[], zero_eq_swept⟩
    · rintro d ⟨done, rfl⟩
      exact bounded_swept 0 done
    · rintro d ⟨done, rfl⟩ w hw
      obtain ⟨a, -, rfl⟩ := List.mem_map.mp hw
      obtain ⟨all, same, -⟩ := @writeAll_swept c.settings 0 done [⟨a, 0⟩] (by simp)
      exact ⟨all, same⟩
  rw [reset?, writes]
  rfl

theorem Bounded.inRange (h : c.Bounded) : c.InRange :=
  ⟨fun s => (h.operators s).toInRange, h.tunings⟩

theorem context_inRange (tunings : ∀ ch, (c.tuning ch).InRange) (s : Slot) :
    (c.context s).pitch.InRange := tunings _

theorem Bounded.putOperator (h : c.Bounded) (r : Register) (v : Byte) (s : Slot) :
    (c.putOperator r v s (c.operator s)).Bounded := by
  have own := h.operators s
  have range := h.inRange.putOperator r v s
  have effect := c.effect_putOperator r v s
  generalize c.putOperator r v s = f at effect range ⊢
  cases effect with
  | none field feedback => exact own
  | field kind register => exact own.put kind _ v
  | key source on keys => exact own.setKey source on
  | feedback ch register place => exact ⟨range, own.ksr, own.ksrShift, own.kslShift⟩

theorem kept_bounded (settings : Settings) : Kept settings fun c => c.Coherent ∧ c.Bounded where
  idle := by
    refine ⟨coherent_idle settings, fun s => ?_, (inRange_idle settings).tunings⟩
    have range := (inRange_idle settings).operators s
    rw [operator_idle] at range ⊢
    exact ⟨range, Nat.zero_lt_succ 15, show 2 < 8 by decide, show 31 < 32 by decide⟩
  store := by
    rintro c r v ⟨coherent, bounded⟩
    have tunings (ch : ChannelId) : ((c.put r v).tuning ch).InRange := by
      rw [tuning_put]
      exact bounded.inRange.putTuning r v ch
    refine ⟨coherent.store r v, ?_, ?_⟩
    · intro s
      have pitch : ((c.put r v).context s).pitch.InRange := context_inRange tunings s
      rw [store_eq coherent, operator_rederive, operator_put]
      exact (bounded.putOperator r v s).derive pitch
    · intro ch
      rw [store_eq coherent, tuning_rederive]
      exact tunings ch
  latch := fun c a h => ⟨(kept_coherent settings).latch c a h.1, h.2.operators, h.2.tunings⟩
  synthesis := by
    rintro c t ⟨coherent, bounded⟩
    obtain ⟨coherent, range⟩ := (kept_inRange settings).synthesis c t ⟨coherent, bounded.inRange⟩
    refine ⟨coherent, fun s => ?_, range.tunings⟩
    obtain ⟨phase, envelope, volume, same⟩ := operator_synthesize (c := c) t s
    have own := bounded.operators s
    have ranged := range.operators s
    rw [same] at ranged ⊢
    exact ⟨ranged, own.ksr, own.ksrShift, own.kslShift⟩

theorem act?_eq (h : c.Coherent ∧ c.Bounded) (a : Action) : c.act? a = some (c.act a) := by
  cases a with
  | write w => exact write?_eq h.2 w.address w.value
  | bus lines v =>
    rw [act?, act, bus]
    split
    · exact write?_eq h.2 c.address v
    · rfl
  | reset => exact reset?_eq c
  | tick player =>
    exact writeAll?_eq (P := fun d => d.Coherent ∧ d.Bounded) (fun _ hd => hd.2)
      (fun _ hd w _ => (kept_bounded c.settings).write hd w.address w.value) h
  | synthesis t => rfl

theorem run?_eq (settings : Settings) (actions : List Action) :
    (fresh settings).run? actions = some ((fresh settings).run actions) := by
  induction actions using List.reverseRecOn with
  | nil => rfl
  | append_singleton before a ih =>
    have bounded := run_keeps (kept_bounded settings) before
    rw [run?, List.foldlM_append, ← run?, ih, run_concat]
    simp only [Option.bind_eq_bind, Option.bind_some, List.foldlM_cons, List.foldlM_nil,
      act?_eq bounded a]
    rfl

theorem route_within (c : Chip) (s : Slot) :
    c.route s = .phaseModA ∨ c.route s = .phaseModB ∨ ∃ n < 18, c.route s = .output n := by
  have alone : ∀ (ch : ChannelId) (connection : Bool) (i : Fin 2),
      (Destination.twoOp ch connection).get i = .phaseModA ∨
        (Destination.twoOp ch connection).get i = .phaseModB ∨
        ∃ n < 18, (Destination.twoOp ch connection).get i = .output n := by decide
  have pair : ∀ (p : Pair) (code i : Fin 4),
      (Destination.fourOp p code).get i = .phaseModA ∨
        (Destination.fourOp p code).get i = .phaseModB ∨
        ∃ n < 18, (Destination.fourOp p code).get i = .output n := by decide
  cases active : c.activePair? s.channel with
  | none =>
    rw [route_of_alone active]
    exact alone ..
  | some p =>
    obtain ⟨joined, first | second⟩ := activePair?_eq_some_iff.mp active
    · rw [route_of_primary joined first]
      exact pair ..
    · rw [route_of_secondary joined second]
      exact pair ..

theorem attenuation_le (coherent : c.Coherent) (h : c.Bounded) (s : Slot) :
    (c.operator s).attenuation ≤ 476 := by
  have drawn := congrArg Operator.attenuation (coherent s)
  rw [← drawn]
  exact Nat.add_le_add (h.operators s).totalLevel ((context_inRange h.tunings s).ksl_le _)

theorem rates_eq (coherent : c.Coherent) (s : Slot) :
    let o := c.operator s
    o.attack = .attackOfIndex (o.attackCode + o.ksr) ∧ o.decay = .ofIndex (o.decayCode + o.ksr) ∧
      o.release = .ofIndex (o.releaseCode + o.ksr) := by
  intro o
  have drawn : o.derive (c.context s) = o := coherent s
  rw [← drawn]
  exact ⟨rfl, rfl, rfl⟩

theorem code_form {code : Nat} (h : ∃ n < 16, code = Rate.code n) :
    code = 0 ∨ ∃ n, 1 ≤ n ∧ n ≤ 15 ∧ code = 16 + 4 * n := by
  obtain ⟨n, bound, rfl⟩ := h
  by_cases zero : n = 0
  · exact .inl (if_pos zero)
  · exact .inr ⟨n, by omega, by omega, if_neg zero⟩

/-- After every run all values are in range, the tremolo switch and the attenuation share a word
without touching, and a rate stands among those of infinite time exactly if its nibble was last
written as zero. The guarded chip never stops, from power on through the run and at every write
thereafter. -/
theorem infallible_run (settings : Settings) (actions : List Action) :
    let c := (fresh settings).run actions
    let R := programmed ((fresh settings).history actions)
    (∀ ch, (c.tuning ch).blockFnum ≤ 0x1FFF ∧ (c.tuning ch).keyCode ≤ 15 ∧
      (c.tuning ch).kslBase ≤ 224) ∧
    (∀ s,
      let o := c.operator s
      o.ksr ≤ 15 ∧
      (∀ code ∈ [o.attackCode, o.decayCode, o.releaseCode],
        code = 0 ∨ ∃ n, 1 ≤ n ∧ n ≤ 15 ∧ code = 16 + 4 * n) ∧
      o.totalLevel ≤ 252 ∧ o.attenuation ≤ 476 ∧
      (o.destination = .phaseModA ∨ o.destination = .phaseModB ∨
        ∃ n < 18, o.destination = .output n) ∧
      o.amAttenuation.testBit 15 = o.am ∧ o.amAttenuation % 32768 = o.attenuation ∧
      (o.attack = .attackOfIndex (o.attackCode + o.ksr) ∧
        (o.attackCode + o.ksr < 16 ↔ (R (.operator .attackDecay s)).high = 0)) ∧
      (o.decay = .ofIndex (o.decayCode + o.ksr) ∧
        (o.decayCode + o.ksr < 16 ↔ (R (.operator .attackDecay s)).low = 0)) ∧
      (o.release = .ofIndex (o.releaseCode + o.ksr) ∧
        (o.releaseCode + o.ksr < 16 ↔ (R (.operator .sustainRelease s)).low = 0))) ∧
    (zero settings).reset? = some (fresh settings) ∧
    (fresh settings).run? actions = some c ∧
    ∀ a v, c.write? a v = some (c.write a v) := by
  intro c R
  obtain ⟨coherent, bounded⟩ := run_keeps (kept_bounded settings) actions
  have holds : Holds R c := holds_run settings actions
  refine ⟨fun ch => ?_, fun s => ?_, reset?_eq _, run?_eq settings actions, write?_eq bounded⟩
  · have range := bounded.tunings ch
    exact ⟨Nat.le_of_lt_succ range.blockFnum, Nat.le_of_lt_succ range.keyCode, range.kslBase⟩
  · intro o
    have own : o.Bounded := bounded.operators s
    have decodes := Operator.decodes_of_put fun kind => holds.operators kind s
    have attenuation : o.attenuation ≤ 476 := attenuation_le coherent bounded s
    obtain ⟨tremolo, level⟩ := Operator.amAttenuation_parts (show o.attenuation < 32768 by omega)
    have placed : o.destination = c.route s := (congrArg Operator.destination (coherent s)).symm
    obtain ⟨attack, decay, release⟩ := rates_eq coherent s
    refine ⟨Nat.le_of_lt_succ own.ksr, ?_, own.totalLevel, attenuation, placed ▸ route_within c s,
      tremolo, level, ⟨attack, ?_⟩, ⟨decay, ?_⟩, release, ?_⟩
    · intro code member
      simp only [List.mem_cons, List.not_mem_nil, or_false] at member
      rcases member with rfl | rfl | rfl
      · exact code_form own.attackCode
      · exact code_form own.decayCode
      · exact code_form own.releaseCode
    · rw [decodes.attackCode]
      exact Rate.code_add_lt_iff own.ksr
    · rw [decodes.decayCode]
      exact Rate.code_add_lt_iff own.ksr
    · rw [decodes.releaseCode]
      exact Rate.code_add_lt_iff own.ksr

end Chip

end Ymf262
