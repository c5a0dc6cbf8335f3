import LimitOrderBook.WalFormat

/-!
# Recovery from the log

A file that writers have written is its header and the numbered records of all the sessions.
Cut at any byte after the header it reads as the records that are complete in it.  What a writer
adds to a cut file is read as well only if the bytes that the crash has torn off a record do not
come in between.
-/

namespace LimitOrderBook

open Codec

/-! ### Sessions -/

namespace WalWriter

theorem writeOrders_eq (w : WalWriter) (es : List (Order × UInt64)) :
  w.writeOrders es
    = { w with
        writer := w.writer ++ WalRecord.layout.encodeAll (numbered w.seqCounter es),
        seqCounter := w.seqCounter + UInt64.ofNat es.length }
  := by
  unfold writeOrders
  induction es generalizing w with
  | nil => simp [numbered]
  | cons e es ih =>
      rw [List.foldl_cons, ih, numbered, encodeAll_cons]
      simp only [writeOrder, WalRecord.layout, pair, WalRecord.of, length_encode,
        List.append_assoc, List.length_cons, UInt64.ofNat_add, UInt64.add_assoc,
        UInt64.add_comm (UInt64.ofNat es.length)]
      rfl

theorem session_eq {file : List UInt8} (h : file ≠ []) (es : List (Order × UInt64)) :
  session file es = file ++ WalRecord.layout.encodeAll (numbered (nextSeq file) es)
  := by
  rw [session, new, if_neg (by rwa [List.length_eq_zero_iff]), writeOrders_eq]
  rfl

theorem session_nil (es : List (Order × UInt64)) :
  session [] es = fileHeader ++ WalRecord.layout.encodeAll (numbered 1 es)
  := by
  rw [session, new, if_pos List.length_nil, writeOrders_eq]
  rfl

/-- The number after the last of the records in the file, whatever has been torn after it. -/
theorem nextSeq_eq (es : List (Order × UInt64)) {tail : List UInt8} (h : tail.length < 72) :
  nextSeq (fileHeader ++ (WalRecord.layout.encodeAll (numbered 1 es) ++ tail))
    = 1 + UInt64.ofNat es.length
  := by
  rw [nextSeq, readAll_fileHeader_append, records_encodeAll_append intact_of_mem_numbered,
    records_of_lt h, List.append_nil]
  rcases List.eq_nil_or_concat es with rfl | ⟨es, e, rfl⟩
  · rfl
  · rw [List.concat_eq_append, numbered_append]
    simp [numbered, WalRecord.of, UInt64.ofNat_add, UInt64.add_assoc]

/-- A session appends to the file, behind the bytes that have been torn. -/
theorem session_append (es fs : List (Order × UInt64)) {tail : List UInt8}
    (h : tail.length < 72) :
  session (fileHeader ++ (WalRecord.layout.encodeAll (numbered 1 es) ++ tail)) fs
    = fileHeader ++ (WalRecord.layout.encodeAll (numbered 1 es)
        ++ (tail ++ WalRecord.layout.encodeAll (numbered (1 + UInt64.ofNat es.length) fs)))
  := by
  have hne : fileHeader ++ (WalRecord.layout.encodeAll (numbered 1 es) ++ tail) ≠ [] :=
    List.append_ne_nil_of_left_ne_nil (List.ne_nil_of_length_pos (by decide)) _
  rw [session_eq hne, nextSeq_eq es h, List.append_assoc, List.append_assoc]

theorem foldl_session (es : List (Order × UInt64)) (ss : List (List (Order × UInt64))) :
  ss.foldl session (fileHeader ++ WalRecord.layout.encodeAll (numbered 1 es))
    = fileHeader ++ WalRecord.layout.encodeAll (numbered 1 (es ++ ss.flatten))
  := by
  induction ss generalizing es with
  | nil => rw [List.foldl_nil, List.flatten_nil, List.append_nil]
  | cons fs ss ih =>
      have hsession := session_append es fs (show ([] : List UInt8).length < 72 by decide)
      rw [List.append_nil, List.nil_append, ← encodeAll_append, ← numbered_append] at hsession
      rw [List.foldl_cons, hsession, ih, List.flatten_cons, List.append_assoc]

/-- The file after the sessions: its header, and the records of all the sessions. -/
theorem sessions_eq {ss : List (List (Order × UInt64))} (h : sessions ss ≠ []) :
  sessions ss = fileHeader ++ WalRecord.layout.encodeAll (numbered 1 ss.flatten)
  := by
  cases ss with
  | nil => exact absurd rfl h
  | cons es ss => rw [sessions, List.foldl_cons, session_nil, foldl_session, List.flatten_cons]

/-- The records that are complete in the first `k` bytes of a file. -/
def complete (k : Nat) : Nat := (k - WalFileHeader.layout.size) / WalRecord.layout.size

/-- A file cut after its header: the records that are complete, and what the cut has left of
the next. -/
theorem take_sessions {ss : List (List (Order × UInt64))} {k : Nat} (h8 : 8 ≤ k)
    (hk : k ≤ (sessions ss).length) :
  ∃ tail, (sessions ss).take k
      = fileHeader ++ (WalRecord.layout.encodeAll (numbered 1 (ss.flatten.take (complete k)))
          ++ tail)
    ∧ tail.length < 72 ∧ (ss.flatten.take (complete k)).length = complete k
  := by
  have hne : sessions ss ≠ [] := by
    intro hnil
    rw [hnil, List.length_nil] at hk
    omega
  obtain ⟨tail, htail, hlt⟩ :=
    WalRecord.layout.take_encodeAll (by decide) (k - 8) (numbered 1 ss.flatten)
  rw [sessions_eq hne, List.length_append, length_fileHeader, length_encodeAll, length_numbered,
    WalRecord.layout_size] at hk
  use tail
  refine ⟨?_, hlt, ?_⟩
  · rw [sessions_eq hne, List.take_append, length_fileHeader,
      List.take_of_length_le (by rw [length_fileHeader]; exact h8), htail, numbered_take]
    rfl
  · rw [List.length_take, complete, WalFileHeader.layout_size, WalRecord.layout_size]
    omega

end WalWriter

/-! ### Cut files -/

/-- The sequence numbers of the records count up from one. -/
def Consecutive (rs : List WalRecord) : Prop :=
  rs.map (fun r => r.1.seqId) = (List.range rs.length).map fun i => UInt64.ofNat (i + 1)

theorem consecutive_numbered (es : List (Order × UInt64)) :
  Consecutive (numbered 1 es)
  := by
  rw [Consecutive, map_seqId_numbered, length_numbered]
  apply List.map_congr_left
  intro i _
  rw [UInt64.ofNat_add, UInt64.add_comm]
  rfl

/-- Cut after its header, a file reads as the records that are complete in it. -/
theorem WalReader.readAll_take_sessions (ss : List (List (Order × UInt64))) {k : Nat}
    (h8 : 8 ≤ k) (hk : k ≤ (WalWriter.sessions ss).length) :
  ∃ rs, WalReader.readAll ((WalWriter.sessions ss).take k) = .ok rs
    ∧ rs.map WalRecord.entry = ss.flatten.take ((k - 8) / 72)
    ∧ rs.length = (k - 8) / 72
    ∧ Consecutive rs
  := by
  obtain ⟨tail, htake, hlt, hlen⟩ := WalWriter.take_sessions h8 hk
  use numbered 1 (ss.flatten.take (WalWriter.complete k))
  rw [htake, readAll_fileHeader_append, records_encodeAll_append intact_of_mem_numbered,
    records_of_lt hlt, List.append_nil, map_entry_numbered, length_numbered]
  exact ⟨rfl, rfl, hlen, consecutive_numbered _⟩

/-- Two sessions of one order each. -/
def sampleSessions : List (List (Order × UInt64)) :=
  [[(Order.newLimit 1 7 .btc .buy 100 10, 1000)], [(Order.newLimit 2 8 .btc .sell 101 5, 2000)]]

theorem WalReader.readAll_take_sampleSessions :
  ∃ rs, WalReader.readAll ((WalWriter.sessions sampleSessions).take 100) = .ok rs
    ∧ rs.map WalRecord.entry = sampleSessions.flatten.take ((100 - 8) / 72)
    ∧ rs.length = (100 - 8) / 72
    ∧ Consecutive rs
  := WalReader.readAll_take_sessions sampleSessions (by decide) (by decide +kernel)

/-! ### Crashes -/

/-- The file cut by a crash to its first `k` bytes, and then written by a new session. -/
def WalWriter.afterCrash (ss : List (List (Order × UInt64))) (k : Nat)
    (es : List (Order × UInt64)) : List UInt8 :=
  WalWriter.session ((WalWriter.sessions ss).take k) es

/-- What is read after a crash is the records that were complete at the crash, and all that
have been written since, with consecutive sequence numbers. -/
def WalReader.Recovers (ss : List (List (Order × UInt64))) (k : Nat)
    (es : List (Order × UInt64)) : Prop :=
  ∃ rs, WalReader.readAll (WalWriter.afterCrash ss k es) = .ok rs
    ∧ rs.map WalRecord.entry = ss.flatten.take (WalWriter.complete k) ++ es
    ∧ Consecutive rs

/-- The bytes a cut leaves of a record that is not complete. -/
def WalWriter.torn (ss : List (List (Order × UInt64))) (k : Nat) : List UInt8 :=
  ((WalWriter.sessions ss).take k).drop
    (WalFileHeader.layout.size + WalRecord.layout.size * WalWriter.complete k)

/-- The bytes of the records that continue the sequence numbers of the complete ones. -/
def WalWriter.continued (k : Nat) (es : List (Order × UInt64)) : List UInt8 :=
  WalRecord.layout.encodeAll (numbered (1 + UInt64.ofNat (WalWriter.complete k)) es)

/-- What a file reads as begins behind its header. -/
theorem WalReader.readAll_eq_ok {file : List UInt8} {rs : List WalRecord}
    (h : WalReader.readAll file = .ok rs) :
  8 ≤ file.length ∧ rs = records (file.drop 8)
  := by
  unfold WalReader.readAll at h
  split at h
  · cases h
  · next hlen =>
      dsimp only at h
      split at h
      · cases h
      · cases h
        rw [round_eq]
        exact ⟨Nat.not_lt.mp hlen, rfl⟩

theorem WalReader.length_of_readAll {file : List UInt8} {rs : List WalRecord}
    (h : WalReader.readAll file = .ok rs) :
  8 + 72 * rs.length ≤ file.length
  := by
  obtain ⟨hlen, rfl⟩ := WalReader.readAll_eq_ok h
  have hfront := (isPrefix_encodeAll_records (file.drop 8)).length_le
  rw [length_encodeAll, List.length_drop, WalRecord.layout_size] at hfront
  omega

/-- An intact record is the one the writer writes for its entry. -/
theorem WalRecord.Intact.eq_of {r : WalRecord} (h : r.Intact) :
  r = WalRecord.of r.1.seqId r.entry
  := by
  obtain ⟨⟨seqId, ts, len, crc⟩, o⟩ := r
  obtain ⟨hlen, hcrc⟩ := h
  have hlen : len = 48 := UInt32.toNat_inj.mp hlen
  subst hlen
  change crc32 (Order.layout.encode o) = crc at hcrc
  subst hcrc
  rfl

theorem eq_numbered {rs : List WalRecord} (hrs : ∀ r ∈ rs, r.Intact) {seqId : UInt64}
    {es : List (Order × UInt64)} (hentry : rs.map WalRecord.entry = es)
    (hseq : rs.map (fun r => r.1.seqId) = (numbered seqId es).map fun r => r.1.seqId) :
  rs = numbered seqId es
  := by
  subst hentry
  induction rs generalizing seqId with
  | nil => rfl
  | cons r rs ih =>
      rw [List.map_cons, List.map_cons, numbered, List.map_cons, List.cons.injEq] at hseq
      obtain ⟨hr, hseq⟩ := hseq
      have hof := (hrs r List.mem_cons_self).eq_of
      rw [hr] at hof
      rw [List.map_cons, numbered, ← ih (fun r hr => hrs r (List.mem_cons_of_mem _ hr)) hseq]
      congr 1

/-- Behind torn bytes, records are read exactly if the torn bytes only repeat them. -/
theorem records_append_eq_iff {seqId : UInt64} {es : List (Order × UInt64)} {tail : List UInt8}
    (h : tail.length < 72) :
  records (tail ++ WalRecord.layout.encodeAll (numbered seqId es)) = numbered seqId es
    ↔ WalRecord.layout.encodeAll (numbered seqId es)
      <+: tail ++ WalRecord.layout.encodeAll (numbered seqId es)
  := by
  constructor
  · intro hrs
    have hfront := isPrefix_encodeAll_records
      (tail ++ WalRecord.layout.encodeAll (numbered seqId es))
    rwa [hrs] at hfront
  · rintro ⟨rest, hrest⟩
    have hlen := congrArg List.length hrest
    rw [List.length_append, List.length_append] at hlen
    rw [← hrest, records_encodeAll_append intact_of_mem_numbered, records_of_lt (by omega),
      List.append_nil]

/-- What is read of a file that a crash has cut after its header. -/
theorem WalReader.recovers_iff_of_le {ss : List (List (Order × UInt64))} {k : Nat}
    (es : List (Order × UInt64)) (h8 : 8 ≤ k) (hk : k ≤ (WalWriter.sessions ss).length) :
  WalReader.Recovers ss k es
    ↔ WalWriter.continued k es <+: WalWriter.torn ss k ++ WalWriter.continued k es
  := by
  obtain ⟨tail, htake, hlt, hlen⟩ := WalWriter.take_sessions h8 hk
  have htorn : WalWriter.torn ss k = tail := by
    rw [WalWriter.torn, htake, ← List.append_assoc]
    apply List.drop_left'
    rw [List.length_append, length_fileHeader, length_encodeAll, length_numbered, hlen]
    rfl
  have hfile : WalReader.readAll (WalWriter.afterCrash ss k es)
      = .ok (numbered 1 (ss.flatten.take (WalWriter.complete k))
          ++ records (tail ++ WalWriter.continued k es)) := by
    rw [WalWriter.afterCrash, htake, WalWriter.session_append _ _ hlt,
      readAll_fileHeader_append, records_encodeAll_append intact_of_mem_numbered, hlen]
    rfl
  have hnumbered : numbered 1 (ss.flatten.take (WalWriter.complete k))
        ++ numbered (1 + UInt64.ofNat (WalWriter.complete k)) es
      = numbered 1 (ss.flatten.take (WalWriter.complete k) ++ es) := by
    rw [numbered_append, hlen]
  rw [htorn, WalWriter.continued, ← records_append_eq_iff hlt]
  constructor
  · rintro ⟨rs, hread, hentry, hseq⟩
    rw [hfile] at hread
    obtain rfl := Except.ok.inj hread
    have hlength := congrArg List.length hentry
    have hintact : ∀ r ∈ numbered 1 (ss.flatten.take (WalWriter.complete k))
        ++ records (tail ++ WalWriter.continued k es), r.Intact := by
      intro r hr
      rcases List.mem_append.mp hr with hr | hr
      · apply intact_of_mem_numbered r hr
      · apply WalRecord.layout.intact_of_mem_frames _ r hr
    rw [Consecutive, ← List.length_map, hlength, ← length_numbered 1, ← consecutive_numbered]
      at hseq
    have hall := eq_numbered hintact hentry hseq
    rw [← hnumbered] at hall
    apply List.append_cancel_left hall
  · intro hrecords
    refine ⟨_, hfile, ?_, ?_⟩
    · rw [WalWriter.continued, hrecords, hnumbered, map_entry_numbered]
    · rw [WalWriter.continued, hrecords, hnumbered]
      apply consecutive_numbered

/-- A writer opened on part of a header takes it for a file: its records lack a header. -/
theorem WalReader.not_recovers_of_lt {ss : List (List (Order × UInt64))} {k : Nat}
    (es : List (Order × UInt64)) (h0 : 0 < k) (h8 : k < 8)
    (hk : k ≤ (WalWriter.sessions ss).length) :
  ¬ WalReader.Recovers ss k es
  := by
  rintro ⟨rs, hread, hentry, -⟩
  have hlen := WalReader.length_of_readAll hread
  have hne : (WalWriter.sessions ss).take k ≠ [] := by
    apply List.ne_nil_of_length_pos
    rw [List.length_take]
    omega
  have hcomplete : WalWriter.complete k = 0 := by
    rw [WalWriter.complete, WalFileHeader.layout_size, WalRecord.layout_size]
    omega
  have hlength := congrArg List.length hentry
  rw [hcomplete, List.take_zero, List.nil_append, List.length_map] at hlength
  rw [WalWriter.afterCrash, WalWriter.session_eq hne, List.length_append, List.length_take,
    length_encodeAll, length_numbered, WalRecord.layout_size, hlength] at hlen
  omega

/-- A writer opened on a file without bytes begins a new one. -/
theorem WalReader.recovers_zero (ss : List (List (Order × UInt64))) (es : List (Order × UInt64)) :
  WalReader.Recovers ss 0 es
  := by
  refine ⟨numbered 1 es, ?_, ?_, consecutive_numbered es⟩
  · rw [WalWriter.afterCrash, List.take_zero, WalWriter.session_nil, readAll_fileHeader_append,
      records_encodeAll intact_of_mem_numbered]
  · rw [map_entry_numbered]
    rfl

/-- What is written after a crash is recovered exactly if the crash has cut off the whole file,
or if it has cut the file after its header and the bytes it has torn are not in the way. -/
theorem WalReader.recovers_iff {ss : List (List (Order × UInt64))} {k : Nat}
    (es : List (Order × UInt64)) (hk : k ≤ (WalWriter.sessions ss).length) :
  WalReader.Recovers ss k es
    ↔ k = 0 ∨ 8 ≤ k
      ∧ WalWriter.continued k es <+: WalWriter.torn ss k ++ WalWriter.continued k es
  := by
  by_cases h8 : 8 ≤ k
  · rw [WalReader.recovers_iff_of_le es h8 hk]
    constructor
    · intro h
      exact Or.inr ⟨h8, h⟩
    · rintro (rfl | ⟨-, h⟩)
      · cases h8
      · apply h
  · rcases Nat.eq_zero_or_pos k with rfl | h0
    · exact ⟨fun _ => Or.inl rfl, fun _ => WalReader.recovers_zero ss es⟩
    · constructor
      · intro h
        exact absurd h (WalReader.not_recovers_of_lt es h0 (Nat.not_le.mp h8) hk)
      · rintro (rfl | ⟨h, -⟩)
        · cases h0
        · exact absurd h h8

/-- Cut behind its first record, the file takes the next record on. -/
theorem WalReader.recovers_sampleSessions :
  WalReader.Recovers sampleSessions 80 [(Order.newLimit 3 9 .btc .buy 102 4, 3000)]
  := (WalReader.recovers_iff _ (by decide +kernel)).mpr (Or.inr ⟨by decide, by decide +kernel⟩)

/-- Cut in its second record, the file swallows the next record. -/
theorem WalReader.not_recovers_tornRecord :
  ¬ ∀ ss k es, k ≤ (WalWriter.sessions ss).length → WalReader.Recovers ss k es
  := by
  intro h
  obtain ⟨rs, hread, hentry, -⟩ :=
    h sampleSessions 120 [(Order.newLimit 3 9 .btc .buy 102 4, 3000)] (by decide +kernel)
  have hlength : (WalReader.readAll (WalWriter.afterCrash sampleSessions 120
      [(Order.newLimit 3 9 .btc .buy 102 4, 3000)])).toOption.map List.length = some 1 := by
    decide +kernel
  rw [hread] at hlength
  have hlength' := congrArg List.length hentry
  rw [List.length_map, Option.some.inj hlength] at hlength'
  exact absurd hlength' (by decide)

end LimitOrderBook
