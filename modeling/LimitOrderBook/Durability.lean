import LimitOrderBook.PipelineRuns
import LimitOrderBook.WalRecovery

/-!
# The logger

The logger syncs after every thousand records and when nothing waits to be logged.  So the records
that have been logged are in the file, but for less than a thousand of the last, or a thousand
while the logger has still to look (`logs`).  Whatever a crash leaves of the bytes that have not
been synced, the file reads as a first part of the records logged, with all that have been synced.
-/

namespace LimitOrderBook

namespace Pipeline

variable {file : List UInt8} {as : List Pipeline.Action} {p p' : Pipeline} {a : Pipeline.Action}

/-- How many records may not have been synced. -/
def Lag (l : Logger) (unsynced : Nat) : Prop :=
  if l.unchecked then
    unsynced ≤ 1000 ∧ (l.count.toNat % 1000 ≠ 0 → unsynced ≤ l.count.toNat % 1000)
  else unsynced ≤ l.count.toNat % 1000

/-- The logger: what has been logged is in the file, or at the end in the buffer of the writer,
under consecutive numbers. -/
structure Logs (file : List UInt8) (as : List Action) (p : Pipeline)
    (synced unsynced : List (Order × UInt64)) : Prop where
  logged_eq : logged file as = synced ++ unsynced
  file_eq : p.logger.wal.file = (WalWriter.new file).file
    ++ WalRecord.layout.encodeAll (numbered (WalWriter.new file).seqCounter synced)
  writer_eq : p.logger.wal.writer = WalRecord.layout.encodeAll
    (numbered ((WalWriter.new file).seqCounter + UInt64.ofNat synced.length) unsynced)
  seqCounter_eq : p.logger.wal.seqCounter
    = (WalWriter.new file).seqCounter + UInt64.ofNat (logged file as).length
  lag : Lag p.logger unsynced.length
  of_idle : p.logger.unchecked = false → p.walRx.items = [] → unsynced = []

theorem toNat_count_succ_mod {count : UInt64} (h : (count + 1).toNat % 1000 ≠ 0) :
  (count + 1).toNat % 1000 = count.toNat % 1000 + 1
  := by
  have hlt := count.toNat_lt
  rw [UInt64.toNat_add, UInt64.toNat_one] at h ⊢
  rcases Nat.lt_or_ge (count.toNat + 1) (2 ^ 64) with hsucc | hsucc
  · rw [Nat.mod_eq_of_lt hsucc] at h ⊢
    omega
  · -- the count comes round to zero
    have hzero : count.toNat + 1 = 2 ^ 64 := Nat.le_antisymm hlt hsucc
    rw [hzero] at h
    exact absurd rfl h

theorem Lag.log {l : Logger} {n : Nat} (h : Lag l n) (hchecked : l.unchecked = false)
    (order : Order) (timestampNs : UInt64) :
  Lag (l.log order timestampNs) (n + 1)
  := by
  unfold Lag at h ⊢
  rw [hchecked, if_neg Bool.false_ne_true] at h
  rw [Logger.log, if_pos rfl]
  dsimp only
  refine ⟨by omega, fun hne => ?_⟩
  rw [toNat_count_succ_mod hne]
  omega

theorem toNat_mod_thousand (count : UInt64) :
  count % 1000 = 0 ↔ count.toNat % 1000 = 0
  := by
  rw [← UInt64.toNat_inj, UInt64.toNat_mod]
  rfl

/-- An action that does not concern the logger. -/
theorem Logs.frame {synced unsynced : List (Order × UInt64)} (h : Logs file as p synced unsynced)
    (hrun : Runs file as p) (hstep : p.Step a p') (hloggings : loggings p a = [])
    (hlogger : p'.logger = p.logger) (hwalRx : p'.walRx.items = [] → p.walRx.items = []) :
  Logs file (as ++ [a]) p' synced unsynced
  := by
  have hlogged := logged_concat hrun hstep
  rw [hloggings, List.append_nil] at hlogged
  constructor
  · rw [hlogged, h.logged_eq]
  · rw [hlogger, h.file_eq]
  · rw [hlogger, h.writer_eq]
  · rw [hlogger, hlogged, h.seqCounter_eq]
  · rw [hlogger]
    apply h.lag
  · rw [hlogger]
    intro hchecked hempty
    apply h.of_idle hchecked (hwalRx hempty)

/-- The writer after one more record. -/
theorem writeOrder_eq (w : WalWriter) (order : Order) (timestampNs : UInt64) :
  (w.writeOrder order timestampNs).2
    = { w with
        writer := w.writer
          ++ WalRecord.layout.encodeAll (numbered w.seqCounter [(order, timestampNs)]),
        seqCounter := w.seqCounter + 1 }
  := w.writeOrders_eq [(order, timestampNs)]

/-- The logger takes a record. -/
theorem Logs.log {synced unsynced : List (Order × UInt64)} (h : Logs file as p synced unsynced)
    (hrun : Runs file as p) (hstep : p.Step .log p') {order : Order} {timestampNs : UInt64}
    {walRx : Channel (Order × UInt64) 100000} (hchecked : p.logger.unchecked = false)
    (hrecv : p.walRx.recv = some ((order, timestampNs), walRx))
    (hlogger : p'.logger = p.logger.log order timestampNs) :
  Logs file (as ++ [.log]) p' synced (unsynced ++ [(order, timestampNs)])
  := by
  have hlogged := logged_concat hrun hstep
  rw [loggings, Channel.recv_eq_some_iff.mp hrecv] at hlogged
  change logged file _ = logged file as ++ [(order, timestampNs)] at hlogged
  have hcounter : p.logger.wal.seqCounter = (WalWriter.new file).seqCounter
      + UInt64.ofNat synced.length + UInt64.ofNat unsynced.length := by
    rw [h.seqCounter_eq, h.logged_eq, List.length_append, UInt64.ofNat_add, UInt64.add_assoc]
  constructor
  · rw [hlogged, h.logged_eq, List.append_assoc]
  · rw [hlogger, Logger.log, writeOrder_eq, h.file_eq]
  · rw [hlogger, Logger.log, writeOrder_eq, h.writer_eq, hcounter, numbered_append,
      Codec.encodeAll_append]
  · rw [hlogger, Logger.log, writeOrder_eq, h.seqCounter_eq, hlogged, List.length_append,
      List.length_singleton, UInt64.ofNat_add, UInt64.add_assoc]
    rfl
  · rw [hlogger, List.length_append, List.length_singleton]
    apply h.lag.log hchecked
  · rw [hlogger]
    intro hunchecked
    cases hunchecked

/-- The logger looks whether to sync. -/
theorem Logs.check {synced unsynced : List (Order × UInt64)} (h : Logs file as p synced unsynced)
    (hrun : Runs file as p) (hstep : p.Step .check p') (hunchecked : p.logger.unchecked = true)
    (hlogger : p'.logger = p.logger.check p.walRx.items.isEmpty)
    (hwalRx : p'.walRx = p.walRx) :
  ∃ synced' unsynced', Logs file (as ++ [.check]) p' synced' unsynced'
    ∧ synced <+: synced'
  := by
  have hlogged := logged_concat hrun hstep
  change logged file _ = logged file as ++ [] at hlogged
  rw [List.append_nil] at hlogged
  by_cases hsync : p.logger.count % 1000 = 0 ∨ p.walRx.items.isEmpty
  · use synced ++ unsynced, []
    refine ⟨?_, List.prefix_append _ _⟩
    have hwal : p'.logger.wal = p.logger.wal.sync := by
      rw [hlogger, Logger.check, if_pos hsync]
    constructor
    · rw [hlogged, h.logged_eq, List.append_nil]
    · rw [hwal, WalWriter.sync, WalWriter.flush, h.file_eq, h.writer_eq, numbered_append,
        Codec.encodeAll_append, List.append_assoc]
    · rw [hwal]
      rfl
    · rw [hwal, hlogged, ← h.seqCounter_eq]
      rfl
    · rw [hlogger, Lag, Logger.check, if_neg Bool.false_ne_true]
      exact Nat.zero_le _
    · intro _ _
      rfl
  · use synced, unsynced
    refine ⟨?_, List.prefix_rfl⟩
    have hwal : p'.logger.wal = p.logger.wal := by
      rw [hlogger, Logger.check, if_neg hsync]
    rw [not_or, toNat_mod_thousand] at hsync
    have hlag := h.lag
    rw [Lag, if_pos hunchecked] at hlag
    constructor
    · rw [hlogged, h.logged_eq]
    · rw [hwal, h.file_eq]
    · rw [hwal, h.writer_eq]
    · rw [hwal, hlogged, h.seqCounter_eq]
    · rw [hlogger, Lag, Logger.check, if_neg Bool.false_ne_true]
      apply hlag.2 hsync.1
    · intro _ hempty
      rw [hwalRx] at hempty
      rw [hempty] at hsync
      exact absurd rfl hsync.2

theorem exists_logs (h : Runs file as p) :
  ∃ synced unsynced, Logs file as p synced unsynced
  := by
  apply runs_induction (P := fun as p => ∃ synced unsynced, Logs file as p synced unsynced) _ _ h
  · use [], []
    constructor
    · rfl
    · exact (List.append_nil _).symm
    · change (WalWriter.new file).writer = []
      unfold WalWriter.new
      split <;> rfl
    · exact (UInt64.add_zero _).symm
    · exact Nat.zero_le _
    · intro _ _
      rfl
  clear h
  intro as a p p' hrun hstep ih
  obtain ⟨synced, unsynced, hlogs⟩ := ih
  cases id hstep with
  | sendRecord hsends hsend =>
      obtain ⟨-, hitems⟩ := Channel.send_eq_some_iff.mp hsend
      refine ⟨synced, unsynced, hlogs.frame hrun hstep rfl rfl ?_⟩
      intro hempty
      dsimp only at hempty
      rw [hitems] at hempty
      exact absurd hempty (List.append_ne_nil_of_right_ne_nil _ (List.cons_ne_nil _ _))
  | log hchecked hrecv => exact ⟨_, _, hlogs.log hrun hstep hchecked hrecv rfl⟩
  | check hunchecked =>
      obtain ⟨synced', unsynced', hlogs', -⟩ := hlogs.check hrun hstep hunchecked rfl rfl
      exact ⟨synced', unsynced', hlogs'⟩
  | _ => exact ⟨synced, unsynced, hlogs.frame hrun hstep rfl rfl id⟩

/-! ### Crashes -/

/-- What a crash leaves: the file, and the first bytes of what had still to be synced. -/
def crashed (p : Pipeline) (k : Nat) : List UInt8 :=
  p.logger.wal.file ++ p.logger.wal.writer.take k

/-- Writers that have left an empty file have had nothing to write. -/
theorem flatten_of_sessions_eq_nil {ss : List (List (Order × UInt64))}
    (h : WalWriter.sessions ss = []) :
  ss.flatten = []
  := by
  cases ss with
  | nil => rfl
  | cons es ss =>
      rw [WalWriter.sessions, List.foldl_cons, WalWriter.session_nil, WalWriter.foldl_session] at h
      exact absurd h (List.append_ne_nil_of_left_ne_nil (List.ne_nil_of_length_pos (by decide)) _)

/-- A writer opened on a file that writers have written. -/
theorem new_sessions (ss : List (List (Order × UInt64))) :
  (WalWriter.new (WalWriter.sessions ss)).file
      = fileHeader ++ WalRecord.layout.encodeAll (numbered 1 ss.flatten)
    ∧ (WalWriter.new (WalWriter.sessions ss)).seqCounter = 1 + UInt64.ofNat ss.flatten.length
  := by
  by_cases hnil : WalWriter.sessions ss = []
  · rw [hnil, flatten_of_sessions_eq_nil hnil]
    exact ⟨(List.append_nil _).symm, rfl⟩
  · rw [WalWriter.new, if_neg (by rwa [List.length_eq_zero_iff])]
    refine ⟨WalWriter.sessions_eq hnil, ?_⟩
    have hnext := WalWriter.nextSeq_eq ss.flatten (show ([] : List UInt8).length < 72 by decide)
    rw [List.append_nil, ← WalWriter.sessions_eq hnil] at hnext
    exact hnext

/-- After a crash, the file reads as the records before the run and the first of those since. -/
theorem exists_readAll_crashed {ss : List (List (Order × UInt64))}
    (h : Runs (WalWriter.sessions ss) as p) (k : Nat) :
  ∃ n, WalReader.readAll (p.crashed k)
      = .ok (numbered 1 (ss.flatten ++ (logged (WalWriter.sessions ss) as).take n))
    ∧ (logged (WalWriter.sessions ss) as).length ≤ n + 1000
    ∧ (p.logger.unchecked = false → p.walRx.items = [] →
      (logged (WalWriter.sessions ss) as).take n = logged (WalWriter.sessions ss) as)
  := by
  obtain ⟨synced, unsynced, hlogs⟩ := exists_logs h
  obtain ⟨hfile, hseq⟩ := new_sessions ss
  obtain ⟨tail, htail, hlt⟩ := WalRecord.layout.take_encodeAll (by decide) k
    (numbered (1 + UInt64.ofNat (ss.flatten ++ synced).length) unsynced)
  have hcounter : (1 : UInt64) + UInt64.ofNat ss.flatten.length + UInt64.ofNat synced.length
      = 1 + UInt64.ofNat (ss.flatten ++ synced).length := by
    rw [List.length_append, UInt64.ofNat_add, UInt64.add_assoc]
  have hcrashed : p.crashed k = fileHeader ++ (WalRecord.layout.encodeAll
      (numbered 1 (ss.flatten ++ (synced ++ unsynced.take (k / 72)))) ++ tail) := by
    rw [crashed, hlogs.file_eq, hlogs.writer_eq, hfile, hseq, hcounter, htail,
      WalRecord.layout_size, numbered_take, ← List.append_assoc ss.flatten,
      numbered_append 1 (ss.flatten ++ synced), numbered_append 1 ss.flatten,
      Codec.encodeAll_append, Codec.encodeAll_append]
    simp only [List.append_assoc]
  have htake : (logged (WalWriter.sessions ss) as).take (synced.length + k / 72)
      = synced ++ unsynced.take (k / 72) := by
    rw [hlogs.logged_eq, List.take_append, List.take_of_length_le (Nat.le_add_right _ _),
      Nat.add_sub_cancel_left]
  use synced.length + k / 72
  refine ⟨?_, ?_, ?_⟩
  · rw [hcrashed, readAll_fileHeader_append, records_encodeAll_append intact_of_mem_numbered,
      records_of_lt hlt, List.append_nil, htake]
  · have hlag : unsynced.length ≤ 1000 := by
      have hlag := hlogs.lag
      unfold Lag at hlag
      split at hlag
      · apply hlag.1
      · omega
    rw [hlogs.logged_eq, List.length_append]
    omega
  · intro hchecked hempty
    rw [htake, hlogs.logged_eq, hlogs.of_idle hchecked hempty, List.take_nil]

end Pipeline

end LimitOrderBook
