/-
A string read that throws. Every character costs one call of `recv` as long as there is room in the
buffer, and the characters read before the call that fails are gone: nothing is lost exactly when
the call that fails is the first or the second of the read.
-/
import Fdcpp.Buffered.Text

namespace Fdcpp.Buffered

open Bytes

/-! ## The calls of a string read -/

section Calls

variable {L : (q : Call) → Answer q → Prop} {s : BufferedSocket}

theorem RecvCalls.length_eq {s' : BufferedSocket} {evs : List Event} (h : RecvCalls s evs s')
    (hlt : s.inSize < s.inCapacity) : evs.length = 1 := by
  obtain ⟨size, r, rfl⟩ := h.room hlt
  rfl

theorem RecvCalls.length_le {s' : BufferedSocket} {evs : List Event} (h : RecvCalls s evs s') : evs.length ≤ 1 := by
  rcases Nat.lt_or_ge s.inSize s.inCapacity with hlt | hge
  · exact (h.length_eq hlt).le
  · rw [h.full hge]
    simp

/-- Where something was thrown a call was made, so that there was room. -/
theorem RecvCalls.of_thrown {s' : BufferedSocket} {evs : List Event} {e : Exc} (h : RecvCalls s evs s')
    (ht : Thrown evs e) : s.inSize < s.inCapacity ∧ evs.length = 1 := by
  obtain ⟨ev, hm, -⟩ := ht
  have hpos : 0 < evs.length := List.length_pos_of_mem hm
  have hle := h.length_le
  refine ⟨?_, by omega⟩
  by_contra hge
  rw [h.full (by omega)] at hm
  cases hm

/-- A read of fewer bytes than are buffered makes only the call for more input. -/
theorem readInputBuffer_calls (hi : Inv s) {buffer : List UInt8} (hlt : buffer.length < s.unread.length) :
    Eff.Sat L (readInputBuffer buffer) s fun evs _ s' => RecvCalls s evs s' := by
  refine (readInputBuffer_cases hi buffer).mono ?_
  rintro evs r s' - (⟨evs₁, evs₂, s₁, rfl, hfirst, hrest⟩ | ⟨e, hfirst, rfl⟩)
  · have hmore : buffer.length < s₁.unread.length := by
      rw [hfirst.unread, List.length_append]
      omega
    cases hrest with
    | buffered =>
      rw [List.append_nil]
      exact ⟨hfirst.calls.inSize, hfirst.calls.full, hfirst.calls.room⟩
    | drained ha hn => omega
    | waited ha hn => omega
    | failed ha hn => omega
  · exact hfirst.calls

/-- A string read fails in the call of one of its characters, after one call for each before it. -/
theorem readChars_calls (tl : List UInt8) : ∀ (str : List UInt8) (s : BufferedSocket) (c : UInt8) (val : List UInt8),
    Inv s → s.unread = str ++ 0 :: tl →
      Eff.Sat L (readChars c str.length val) s fun evs r s' => ∀ e, r = .error e →
        s.inSize < s.inCapacity ∧ s.unread.length + (taken evs).length + 1 = s'.unread.length + evs.length
  | [], s, c, val, _, _ => by rintro e ⟨⟩
  | b :: str, s, c, val, hi, hu => by
    have hlt : [c].length < s.unread.length := by rw [hu]; simp
    rw [List.length_cons, readChars]
    refine ((readInputBuffer_spec hi [c]).and (readInputBuffer_calls hi hlt)).bind ?_ ?_
    · rintro evs bs s₁ - ⟨h, hcalls⟩
      obtain ⟨hlen, hbs⟩ := h.buffered hlt.le
      have hbytes := congrArg List.length hbs
      obtain ⟨b', rfl⟩ := List.length_eq_one_iff.1 hlen
      rw [hu] at hbs
      simp only [List.cons_append, List.nil_append, List.cons.injEq, List.append_assoc] at hbs
      obtain ⟨rfl, hu₁⟩ := hbs
      refine (readChars_calls (tl ++ taken evs) str s₁ b (val ++ [b]) h.inv hu₁.symm).mono ?_
      intro evs' r s' _ h' e he
      obtain ⟨hroom, hcount⟩ := h' e he
      -- the later call had room, so this one had it too
      have hroom' : s.inSize < s.inCapacity := by
        have := hcalls.inSize
        have := h.kept.inCapacity
        omega
      have hone := hcalls.length_eq hroom'
      refine ⟨hroom', ?_⟩
      simp only [List.length_append, List.length_singleton] at hbytes
      simp only [taken_append, List.length_append]
      omega
    · rintro evs e s' - ⟨h, hcalls⟩ _ ⟨⟩
      obtain ⟨hbytes, ht⟩ := h.error e rfl
      obtain ⟨hroom, hone⟩ := hcalls.of_thrown ht
      refine ⟨hroom, ?_⟩
      rw [← hbytes, hone, List.length_append]

/-- What a string read that throws has lost, and the call in which it failed. -/
theorem shrString_error {str tl : List UInt8} (hi : Inv s) (hu : s.unread = str ++ 0 :: tl) (hs : 0 ∉ str) (c : UInt8) :
    Eff.Sat L (shrString c) s fun evs r s' => ∀ e, r = .error e →
      ∃ lost, s.unread ++ taken evs = lost ++ s'.unread ∧
        (evs.length = lost.length + 2 ∨ evs.length = 1 ∧ lost = []) := by
  unfold shrString
  refine ((recvIfPossible_spec hi).and (recvIfPossible_calls hi)).bind ?_ ?_
  · rintro evs ⟨⟩ s₁ - ⟨⟨hi₁, hk₁, hu₁, -, -⟩, hcalls⟩
    have hstr : s₁.unread = str ++ 0 :: (tl ++ taken evs) := by rw [hu₁, hu]; simp
    rw [Eff.sat_bind, Eff.sat_get]
    dsimp only
    rw [Eff.sat_bind]
    refine strlenAt_spec hi₁ hstr hs fun hi₂ => ?_
    refine ((readChars_spec _ str _ c [] hi₂ hstr).and (readChars_calls _ str _ c [] hi₂ hstr)).bind ?_ ?_
    · intro evs' v s₃ _ _
      rintro e ⟨⟩
    · rintro evs' e s' - ⟨h, hcount⟩ _ ⟨⟩
      obtain ⟨⟨lost, -, hlost⟩, -⟩ := h.error e rfl
      obtain ⟨hroom, hcount⟩ := hcount e rfl
      rw [touched_unread] at hlost hcount
      have hlen := congrArg List.length hlost
      have hroom' : s.inSize < s.inCapacity := by
        have hle := hcalls.inSize
        have hcap : s₁.inCapacity = s.inCapacity := hk₁.inCapacity
        have hlt : s₁.inSize < s₁.inCapacity := hroom
        omega
      have hone := hcalls.length_eq hroom'
      refine ⟨lost, ?_, .inl ?_⟩
      · simp only [List.nil_append, taken_append]
        rw [← hlost, hu₁, List.append_assoc]
      · simp only [List.nil_append, List.length_append] at hlen ⊢
        omega
  · rintro evs e s' - ⟨⟨-, -, hu', -, ht⟩, hcalls⟩ _ ⟨⟩
    exact ⟨[], hu'.symm, .inr ⟨(hcalls.of_thrown ht).2, rfl⟩⟩

end Calls

/-! ## What a failed read loses -/

/-- The string is unread as before, with what has come in behind it, and a repeated read gets it. -/
structure NothingLost (str : List UInt8) (s : BufferedSocket) (evs : List Event) (s' : BufferedSocket) : Prop where
  kept : s.unread ++ taken evs = s'.unread
  again : ∀ c evs' v s'', ((Op.getString c).exec.prog s').Runs evs' (.ok v, s'') → v = some (.string str)

theorem getString_error {L : (q : Call) → Answer q → Prop} {s : BufferedSocket} {str tl : List UInt8} (hi : Inv s)
    (hu : s.unread = str ++ 0 :: tl) (hs : 0 ∉ str) (c : UInt8) :
    Eff.Sat L (Op.getString c).exec s fun evs r s' => ∀ e, r = .error e →
      ∃ lost, s.unread ++ taken evs = lost ++ s'.unread ∧
        (evs.length = lost.length + 2 ∨ evs.length = 1 ∧ lost = []) := by
  refine sat_map (shrString_error hi hu hs c) ?_ ?_
  · rintro evs v s' - e ⟨⟩
  · rintro evs e s' h _ ⟨⟩
    exact h e rfl

/-- Where the string is unread with its terminator, a read of it that throws loses nothing exactly if
the call that fails is its first or its second. -/
theorem nothing_lost_iff {s : BufferedSocket} (hi : Inv s) {str tl : List UInt8} (hu : s.unread = str ++ 0 :: tl)
    (hs : 0 ∉ str) (c : UInt8) {evs : List Event} {e : Exc} {s' : BufferedSocket}
    (hr : ((Op.getString c).exec.prog s).Runs evs (.error e, s')) : NothingLost str s evs s' ↔ evs.length ≤ 2 := by
  have hnul : ∀ rest, 0 ∈ s.unread ++ rest := by rw [hu]; simp
  have hi' : Inv s' := (Any.post (getString_spec hi c) hr (.inr (hnul _))).inv
  obtain ⟨lost, hlost, hcount⟩ := Any.post (getString_error hi hu hs c) hr e rfl
  constructor
  · intro h
    rw [h.kept] at hlost
    have hlen := congrArg List.length hlost
    rw [List.length_append] at hlen
    omega
  · intro hle
    have hnil : lost = [] := by
      rcases hcount with hc | ⟨-, rfl⟩
      · exact List.length_eq_zero_iff.1 (by omega)
      · rfl
    rw [hnil, List.nil_append] at hlost
    refine ⟨hlost, fun c evs' v s'' hr' => ?_⟩
    have hnul' : 0 ∈ s'.unread ++ firstRecv s' evs' := by rw [← hlost, List.append_assoc]; exact hnul _
    obtain ⟨str', rfl, hs', hstr'⟩ := (Any.post (getString_spec hi' c) hr' (.inr hnul')).ok v rfl
    rw [← hlost, hu] at hstr'
    simp only [List.append_assoc, List.cons_append] at hstr'
    rw [string_unique hs hs' hstr']

/-- An object with the string "ab" and its terminator in a buffer of four bytes. -/
def holdingAb : BufferedSocket := { BufferedSocket.make 4 0 [97, 98, 0, 9] with inSize := 3 }

theorem holdingAb_inv : Inv holdingAb :=
  ⟨by decide, by decide, by decide, rfl, rfl, by intro a ha; cases ha⟩

theorem holdingAb_unread : holdingAb.unread = [97, 98] ++ 0 :: [] := by decide

/-- The call for the first character fails. -/
theorem nothing_lost_second : ∃ evs e s', ((Op.getString 0).exec.prog holdingAb).Runs evs (.error e, s') ∧
    evs.length = 2 ∧ NothingLost [97, 98] holdingAb evs s' := by
  have hv : (holdingAb.perform [.fails EAGAIN, .fails 104] (.getString 0)).2.1 =
      .error (.system (throwSystemError "socket" "recv()" 104)) := by decide +kernel
  have hr := perform_runs holdingAb [.fails EAGAIN, .fails 104] (.getString 0) hv
  have hlen : (holdingAb.perform [.fails EAGAIN, .fails 104] (.getString 0)).1.length = 2 := by decide +kernel
  exact ⟨_, _, _, hr, hlen, (nothing_lost_iff holdingAb_inv holdingAb_unread (by decide) 0 hr).2 hlen.le⟩

/-- The call for the second character fails, and the first is lost. -/
theorem first_char_lost : ∃ evs e s', ((Op.getString 0).exec.prog holdingAb).Runs evs (.error e, s') ∧
    holdingAb.unread = [97, 98, 0] ∧ taken evs = [] ∧ s'.unread = [98, 0] ∧
    ¬ NothingLost [97, 98] holdingAb evs s' := by
  have hv : (holdingAb.perform [.fails EAGAIN, .fails EAGAIN, .fails 104] (.getString 0)).2.1 =
      .error (.system (throwSystemError "socket" "recv()" 104)) := by decide +kernel
  have hr := perform_runs holdingAb [.fails EAGAIN, .fails EAGAIN, .fails 104] (.getString 0) hv
  refine ⟨_, _, _, hr, holdingAb_unread, ?_, ?_, fun h => ?_⟩
  · decide +kernel
  · decide +kernel
  · have hkept := h.kept
    revert hkept
    decide +kernel

end Fdcpp.Buffered
