import Itch.Soup.Moves
import Itch.Source.Contract

/-!
# The ledger of the server

What holds of the store, the channel and the counter of the ingest task in every state:
messages are broadcast under consecutive numbers, after they were stored, and a number
below the largest one never stands for two messages.
-/

namespace Itch

open Lib

variable {σ : Type} [LawfulSeqStore σ]

open LawfulSeqStore (view latestSeq)

/-- A read returns nothing exactly if its start is not retained. -/
theorem consecutive_eq_nil_iff {retained : UInt64 → Option Message} {count : Nat}
    {start : UInt64} : consecutive retained (count + 1) start = [] ↔ retained start = none := by
  rw [consecutive]
  split
  next h => simp [h]
  next m h => simp [h]

namespace Server

/-- Stored under the number, before start-up or by the ingest task. -/
def WasStored (first : σ) (srv : Server σ) (n : UInt64) (m : Message) : Prop :=
  view first n = some m ∨ (n, m) ∈ srv.written

/-- The invariant of the ingest task, which starts with the store `first` and the number
`start`. -/
structure Ledger (first : σ) (start : Nat) (srv : Server σ) : Prop where
  nextSeq : srv.nextSeq.toNat = min (start + srv.channel.length) (2 ^ 64 - 1)
  channel : Numbered start srv.channel
  written_of_channel : ∀ e ∈ srv.channel, e ∈ srv.written
  written_of_stored : ∀ m, srv.stored = some m → (srv.nextSeq, m) ∈ srv.written
  wasStored_of_view : ∀ n m, view srv.store n = some m → srv.WasStored first n m
  le_latest : ∀ n m, srv.WasStored first n m → n.toNat ≤ (latestSeq srv.store).toNat
  /-- The store holds what was stored, or has evicted it. -/
  view_of_wasStored : (latestSeq srv.store).toNat < 2 ^ 64 - 1 → ∀ n m,
    srv.WasStored first n m → view srv.store n = some m ∨ view srv.store n = none
  latest_le : (latestSeq srv.store).toNat ≤ srv.nextSeq.toNat
  latest_lt : (latestSeq srv.store).toNat < 2 ^ 64 - 1 → srv.stored = none →
    (latestSeq srv.store).toNat < srv.nextSeq.toNat

variable {first : σ} {start : Nat} {srv srv' : Server σ}

theorem toNat_nextSeq_start (first : σ) (startSequence : UInt64) :
    (Server.start first startSequence).nextSeq.toNat =
      max (min ((latestSeq first).toNat + 1) (2 ^ 64 - 1)) startSequence.toNat := by
  have hsucc := Word64.toNat_saturatingSucc (latestSeq first)
  simp only [Server.start, LawfulSeqStore.latest_eq]
  split
  next h =>
    rw [Word64.lt_iff] at h
    omega
  next h =>
    rw [Word64.lt_iff] at h
    omega

theorem ledger_start (first : σ) (startSequence : UInt64) :
    Ledger first (Server.start first startSequence).nextSeq.toNat
      (Server.start first startSequence) := by
  have hnext := toNat_nextSeq_start first startSequence
  have hle := Word64.le_max (latestSeq first)
  have hview : ∀ n m, (Server.start first startSequence).WasStored first n m →
      view first n = some m := fun n m h => h.resolve_right List.not_mem_nil
  have htop := Word64.le_max (Server.start first startSequence).nextSeq
  exact {
    nextSeq := (Nat.min_eq_left htop).symm
    channel := .nil
    written_of_channel := fun e he => absurd he List.not_mem_nil
    written_of_stored := fun _ h => nomatch h
    wasStored_of_view := fun n m h => .inl h
    le_latest := fun n m h =>
      Word64.le_iff.mp (LawfulSeqStore.le_latestSeq first n m (hview n m h))
    view_of_wasStored := fun _ n m h => .inl (hview n m h)
    latest_le := by
      show (latestSeq first).toNat ≤ _
      omega
    latest_lt := fun hlt _ => by
      have hlt : (latestSeq first).toNat < 2 ^ 64 - 1 := hlt
      show (latestSeq first).toNat < _
      omega }

/-! ## What a move of the ingest task keeps -/

theorem Move.written_subset (h : Move srv srv') {e : UInt64 × Message} (he : e ∈ srv.written) :
    e ∈ srv'.written := by
  cases h with
  | drop => exact he
  | store => exact List.mem_append_left _ he
  | broadcast => exact he
  | close => exact he

theorem WasStored.move {n : UInt64} {m : Message} (h : srv.WasStored first n m)
    (hmove : Move srv srv') : srv'.WasStored first n m :=
  h.imp_right hmove.written_subset

theorem Move.nextSeq_le (h : Move srv srv') : srv.nextSeq.toNat ≤ srv'.nextSeq.toNat := by
  cases h with
  | drop => exact le_rfl
  | store => exact le_rfl
  | broadcast =>
      have hle := Word64.le_max srv.nextSeq
      show _ ≤ (Word64.saturatingSucc srv.nextSeq).toNat
      rw [Word64.toNat_saturatingSucc]
      omega
  | close => exact le_rfl

/-- A number the counter has passed is not filled any more. -/
theorem Move.view_eq_none (h : Move srv srv') {n : UInt64} (hlt : n.toNat < srv.nextSeq.toNat)
    (hnone : view srv.store n = none) : view srv'.store n = none := by
  cases h with
  | drop => exact hnone
  | store _ hstore =>
      have hne : n ≠ srv.nextSeq := fun heq => Nat.ne_of_lt hlt (congrArg UInt64.toNat heq)
      rcases LawfulSeqStore.view_store_of_ne _ _ _ _ hstore n hne with hview | hview
      · exact hview.trans hnone
      · exact hview
  | broadcast => exact hnone
  | close => exact hnone

theorem Ledger.store {msg : Message} {store : σ} (h : Ledger first start srv)
    (hnone : srv.stored = none) (hstore : SeqStore.store srv.store srv.nextSeq msg = some store) :
    Ledger first start { srv with
      store := store
      stored := some msg
      written := srv.written ++ [(srv.nextSeq, msg)] } := by
  have hlatest := LawfulSeqStore.latestSeq_store _ _ _ _ hstore
  have hle := h.latest_le
  have hmove : Move srv _ := .store hnone hstore
  have hcases : ∀ n m, WasStored first { srv with
      store := store
      stored := some msg
      written := srv.written ++ [(srv.nextSeq, msg)] } n m →
      srv.WasStored first n m ∨ (n = srv.nextSeq ∧ m = msg) := by
    rintro n m (hfirst | hwritten)
    · exact .inl (.inl hfirst)
    · rcases List.mem_append.mp hwritten with hold | hnew
      · exact .inl (.inr hold)
      · exact .inr (Prod.mk.injEq .. ▸ List.mem_singleton.mp hnew)
  exact {
    nextSeq := h.nextSeq
    channel := h.channel
    written_of_channel := fun e he => List.mem_append_left _ (h.written_of_channel e he)
    written_of_stored := by
      rintro m ⟨⟩
      exact List.mem_append_right _ List.mem_cons_self
    wasStored_of_view := by
      intro n m hview
      by_cases hn : n = srv.nextSeq
      · subst hn
        have hnew := (LawfulSeqStore.view_store _ _ _ _ hstore).symm.trans hview
        cases hnew
        exact .inr (List.mem_append_right _ List.mem_cons_self)
      · rcases LawfulSeqStore.view_store_of_ne _ _ _ _ hstore n hn with hold | hgone
        · exact (h.wasStored_of_view n m (hold.symm.trans hview)).move hmove
        · exact absurd (hgone.symm.trans hview) nofun
    le_latest := by
      intro n m hwas
      show n.toNat ≤ (latestSeq store).toNat
      rcases hcases n m hwas with hold | ⟨rfl, rfl⟩
      · have := h.le_latest n m hold
        omega
      · omega
    view_of_wasStored := by
      intro hlt n m hwas
      have hlt : (latestSeq store).toNat < 2 ^ 64 - 1 := hlt
      rcases hcases n m hwas with hold | ⟨rfl, rfl⟩
      · -- the counter is past everything stored so far
        have hpast := h.latest_lt (by omega) hnone
        have hn := h.le_latest n m hold
        have hne : n ≠ srv.nextSeq := fun heq => by
          rw [heq] at hn
          omega
        rcases LawfulSeqStore.view_store_of_ne _ _ _ _ hstore n hne with heq | hgone
        · exact (h.view_of_wasStored (by omega) n m hold).imp heq.trans heq.trans
        · exact .inr hgone
      · exact .inl (LawfulSeqStore.view_store _ _ _ _ hstore)
    latest_le := by
      show (latestSeq store).toNat ≤ srv.nextSeq.toNat
      omega
    latest_lt := fun _ => nofun }

theorem Ledger.broadcast {msg : Message} (h : Ledger first start srv)
    (hsome : srv.stored = some msg) :
    Ledger first start { srv with
      channel := srv.channel ++ [(srv.nextSeq, msg)]
      nextSeq := Word64.saturatingSucc srv.nextSeq
      stored := none } := by
  have hnext := h.nextSeq
  have hsucc := Word64.toNat_saturatingSucc srv.nextSeq
  have hle := h.latest_le
  have htop := Word64.le_max (latestSeq srv.store)
  have hstored := h.written_of_stored msg hsome
  exact {
    nextSeq := by
      show (Word64.saturatingSucc srv.nextSeq).toNat = _
      rw [List.length_append, List.length_singleton]
      omega
    channel := h.channel.concat hnext
    written_of_channel := by
      intro e he
      rcases List.mem_append.mp he with he | he
      · exact h.written_of_channel e he
      · exact List.mem_singleton.mp he ▸ hstored
    written_of_stored := fun _ h => nomatch h
    wasStored_of_view := h.wasStored_of_view
    le_latest := h.le_latest
    view_of_wasStored := h.view_of_wasStored
    latest_le := by
      show (latestSeq srv.store).toNat ≤ (Word64.saturatingSucc srv.nextSeq).toNat
      omega
    latest_lt := fun hlt _ => by
      have hlt : (latestSeq srv.store).toNat < 2 ^ 64 - 1 := hlt
      show (latestSeq srv.store).toNat < (Word64.saturatingSucc srv.nextSeq).toNat
      omega }

theorem Ledger.move (h : Ledger first start srv) (hmove : Move srv srv') :
    Ledger first start srv' := by
  cases hmove with
  | drop => exact h
  | store hnone hstore => exact h.store hnone hstore
  | broadcast hsome => exact h.broadcast hsome
  | close hnone =>
      exact ⟨h.nextSeq, h.channel, h.written_of_channel, h.written_of_stored,
        h.wasStored_of_view, h.le_latest, h.view_of_wasStored, h.latest_le, h.latest_lt⟩

end Server

end Itch
