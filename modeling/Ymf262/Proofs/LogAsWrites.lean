import Ymf262.Proofs.LogFormat
import Ymf262.Proofs.TickLimit
import Ymf262.Proofs.WriteSyntax

/-! Two ways to feed the dump. A log and the writes of its records, given one by one as text, leave
the same chip: reading bytes and reading text give the same writes, a whole replay applies them in
order, and the delays only show in the line that counts the ticks. -/
namespace Ymf262

namespace Text

theorem toLower_digitChar (d : Nat) : (Nat.digitChar d).toLower = Nat.digitChar d := by
  by_cases small : d < 16
  · have all : ∀ d : Fin 16, (Nat.digitChar d).toLower = Nat.digitChar d := by decide
    exact all ⟨d, small⟩
  · rw [Nat.digitChar_eq_star.mpr (Nat.le_of_not_lt small)]
    rfl

theorem rendering_hex (width n : Nat) : Rendering n (hex width n).toList := by
  refine ⟨[], [], width - (Nat.toDigits 16 n).length, Nat.toDigits 16 n, [], ?_,
    List.forall_mem_nil _, by decide, ?_, List.forall_mem_nil _⟩
  · rw [hex, String.toList_ofList, padLeft, List.nil_append, List.nil_append, List.append_nil]
  · have lower : ∀ c ∈ Nat.toDigits 16 n, c.toLower = id c := by
      intro c member
      obtain ⟨d, rfl⟩ := digit_of_mem_toDigits (by decide) member
      exact toLower_digitChar d
    rw [List.map_congr_left lower, List.map_id]

end Text

namespace RegisterWrite
open Text

variable {text : String} {w : RegisterWrite}

/-- A text that writes a register and a value in hexadecimal, in any of the ways there are. -/
def Spells (text : String) (w : RegisterWrite) : Prop :=
  ∃ before after, text = String.ofList (before ++ '=' :: after) ∧
    Rendering w.address.toNat before ∧ Rendering w.value.toNat after

theorem spells_hex (w : RegisterWrite) :
    Spells (hex 0 w.address.toNat ++ "=" ++ hex 0 w.value.toNat) w := by
  refine ⟨_, _, ?_, rendering_hex 0 _, rendering_hex 0 _⟩
  apply String.toList_injective
  simp

theorem Spells.parse (h : Spells text w) (inBanks : w.address.toNat ≤ 0x1FF) :
    parse text = .ok w := by
  obtain ⟨before, after, rfl, first, second⟩ := h
  exact parse_rendering inBanks first second

abbrev Reads (texts : List String) (ws : List RegisterWrite) : Prop :=
  List.Forall₂ (fun text w => parse text = .ok w) texts ws

variable {texts : List String} {ws : List RegisterWrite}

theorem Reads.mapM_parse (h : Reads texts ws) : texts.mapM parse = .ok ws := by
  induction h with
  | nil => rfl
  | cons first _ ih =>
    rw [List.mapM_cons, first, ih]
    rfl

end RegisterWrite

namespace Imf

theorem Record.address_write_le (r : Record) : r.write.address.toNat ≤ 0x1FF := by
  have := r.register.toNat_lt
  show r.register.toUInt16.toNat ≤ 0x1FF
  rw [UInt8.toNat_toUInt16]
  omega

theorem run_whole (records : List Record) (chip : Chip) (short : duration records < 2 ^ 32 - 1) :
    let r := Replay.run none ⟨.start records, chip⟩
    OnSchedule records chip (span records) r ∧ r.player.position = records.length := by
  intro r
  have schedule : OnSchedule records chip (span records) r := by
    have same : r = _ := run_start records chip none short
    rw [same]
    exact onSchedule_within records chip short (Nat.le_refl _)
  refine ⟨schedule, Nat.le_antisymm schedule.position_le ?_⟩
  have played := (schedule.pending_eq_nil_iff (span_pos records)).mpr (Nat.le_refl _)
  rwa [schedule.pending, List.drop_eq_nil_iff] at played

end Imf

namespace Dump
open Imf

section
variable {files : Files} {o : Options} {writes : List RegisterWrite}

theorem run_of_no_file (noFile : o.file = none)
    (parsed : o.writes.mapM RegisterWrite.parse = .ok writes) :
    run files o = .ok (report ((Chip.fresh .default).writeAll writes) o.all) := by
  unfold run
  rw [parsed, noFile]
  rfl

def wholeLine (records : List Record) : String :=
  "replayed " ++ Text.decimal records.length ++ "/" ++ Text.decimal records.length ++
    " writes in " ++ Text.decimal (span records) ++ " ticks"

theorem run_of_log {path : String} {records : List Record} (file : o.file = some path)
    (unlimited : o.ticks = none) (loaded : load (format o) (files path) = .ok records)
    (parsed : o.writes.mapM RegisterWrite.parse = .ok writes)
    (short : duration records < 2 ^ 32 - 1) :
    run files o = .ok (wholeLine records ::
      report (records.foldl (fun c d => c.write d.register.toUInt16 d.value)
        ((Chip.fresh .default).writeAll writes)) o.all) := by
  obtain ⟨schedule, whole⟩ := run_whole records ((Chip.fresh .default).writeAll writes) short
  have chip := schedule.chip_eq
  rw [whole, List.take_length] at chip
  rw [run_of_load file loaded parsed, unlimited, replayLine_of_schedule schedule, whole, chip]
  rfl

end

/-- The dump of a log and that of the writes of its records, given as text after the same other
writes, show the same chip. Only the first line is more, and it counts all records. -/
theorem log_as_writes (files : Files) (path : String) (records : List Record)
    (earlier texts : List String) (writes : List RegisterWrite) (all : Bool)
    (wellFormed : earlier.mapM RegisterWrite.parse = .ok writes)
    (spelled : List.Forall₂
      (fun text d => RegisterWrite.Spells text ⟨d.register.toUInt16, d.value⟩) texts records)
    (short : duration records < 2 ^ 32 - 1) :
    let lines := report (records.foldl (fun c d => c.write d.register.toUInt16 d.value)
      (writes.foldl (fun c w => c.write w.address w.value) (.fresh .default))) all
    run files { file := none, chunk := false, ticks := none, writes := earlier ++ texts, all } =
        .ok lines ∧
      (files path = .ok (encode records) →
        run files { file := some path, chunk := false, ticks := none, writes := earlier, all } =
          .ok (wholeLine records :: lines)) ∧
      (4 * records.length ≤ 65535 → ∀ tail,
        files path = .ok (wordBytes (4 * records.length) ++ encode records ++ tail) →
        run files { file := some path, chunk := true, ticks := none, writes := earlier, all } =
          .ok (wholeLine records :: lines)) := by
  intro lines
  have after : RegisterWrite.Reads texts (records.map Record.write) := by
    rw [RegisterWrite.Reads, List.forall₂_map_right_iff]
    exact spelled.imp fun _ d spells => spells.parse d.address_write_le
  have both : (earlier ++ texts).mapM RegisterWrite.parse =
      .ok (writes ++ records.map Record.write) := by
    rw [List.mapM_append, wellFormed, after.mapM_parse]
    rfl
  refine ⟨?_, ?_, ?_⟩
  · rw [run_of_no_file rfl both, Chip.writeAll_append, writeAll_map_write]
    rfl
  · intro stored
    apply run_of_log rfl rfl _ wellFormed short
    rw [stored]
    exact records_encode 0 records
  · intro fits tail stored
    apply run_of_log rfl rfl _ wellFormed short
    rw [stored]
    exact parse_chunk_encode tail fits

/-- Two records three ticks apart, in a chunk with other data after it, in OPL3 mode. -/
theorem log_as_writes_chunk :
    let data : List Byte := [8, 0, 0xA0, 0x98, 3, 0, 0xB0, 0x31, 0, 0, 0x74]
    let tree : FileTree := ⟨[(["song"], .file data)], []⟩
    let lines :=
      ["OPL3 on rhythm off AM depth 1dB vibrato depth 7c NTS off",
        "ch  0 block 4 fnum 198 kc  8 pan LR",
        "    op  0 key 01 ATTACK  vol 511 inc 235416 mul  1154 ar   0 dr   0 sl   0 rr   0 " ++
          "att   0 wave 0 fb 0 -> PhaseModA",
        "    op  1 key 01 ATTACK  vol 511 inc 235416 mul  1154 ar   0 dr   0 sl   0 rr   0 " ++
          "att   0 wave 0 fb 0 -> ChannelOutput(0)"]
    run tree.read ⟨none, false, none, [" 0X105=+1", "a0=98", "b0=31"], false⟩ = .ok lines ∧
      run tree.read ⟨some "song", true, none, [" 0X105=+1"], false⟩ =
        .ok ("replayed 2/2 writes in 4 ticks" :: lines) := by
  intro data tree lines
  let records : List Record := [⟨0xA0, 0x98, 3⟩, ⟨0xB0, 0x31, 0⟩]
  let writes : List RegisterWrite := [⟨0x105, 1⟩]
  have spelled : List.Forall₂
      (fun text d => RegisterWrite.Spells text ⟨d.register.toUInt16, d.value⟩)
      ["a0=98", "b0=31"] records :=
    .cons (RegisterWrite.spells_hex ⟨0xA0, 0x98⟩)
      (.cons (RegisterWrite.spells_hex ⟨0xB0, 0x31⟩) .nil)
  obtain ⟨written, -, replayed⟩ := log_as_writes tree.read "song" records [" 0X105=+1"]
    ["a0=98", "b0=31"] writes false (by decide) spelled (by decide)
  have shown : report (records.foldl (fun c d => c.write d.register.toUInt16 d.value)
      (writes.foldl (fun c w => c.write w.address w.value) (Chip.fresh .default))) false =
        lines := by
    rw [Chip.fresh_eq]
    decide +kernel
  have line : wholeLine records = "replayed 2/2 writes in 4 ticks" := by decide
  have stored : tree.read "song" =
      .ok (wordBytes (4 * records.length) ++ encode records ++ [0x74]) := by
    decide +kernel
  rw [← shown, ← line]
  exact ⟨written, replayed (by decide) [0x74] stored⟩

end Dump

end Ymf262
