import Comp4511.XmStep

/-!
# Cleaning up

`xmerge` has eight return statements, each with its own list of
descriptors to close. `Pc.held` says which descriptors the call has open
at each place, and `Holding` that the history, replayed, leaves exactly
those and that the table differs from the one on entry only there. Every
step keeps it, and when the call returns nothing is held.
-/

namespace Comp4511

namespace Xm

/-! ## Replaying a history -/

/-- The descriptors a call owns after one more event: an open must give a
number that it does not own, a close must be of one that it does. -/
def Event.own (own : List Nat) : Event → Option (List Nat)
  | .ksysOpen _ _ result =>
      if result < 0 then some own
      else if result.toNat ∈ own then none else some (result.toNat :: own)
  | .ksysClose fd => if fd ∈ own then some (own.erase fd) else none
  | .copyFromUser .. | .printk _ | .ksysRead .. | .ksysWrite .. | .copyToUser .. => some own

/-- What a call owns after a history; `none` if it closed something that
it had not opened, or had closed already. -/
def owned (h : List Event) : Option (List Nat) := h.foldlM Event.own []

theorem owned_append {h : List Event} {own : List Nat} (hown : owned h = some own) (e : Event) :
    owned (h ++ [e]) = e.own own := by
  unfold owned at hown ⊢
  rw [List.foldlM_append, hown]
  simp

/-! ## What is held -/

/-- The descriptors that are open at a place. -/
def Pc.held : Pc → List Nat
  | .params | .openOut | .returned _ => []
  | .head outfd _ | .name outfd _ | .openIn outfd _ => [outfd]
  | .read outfd infd _ | .write outfd infd _ _ | .count outfd infd _ | .closeIn outfd infd _ =>
      [outfd, infd]
  | .leave fds _ => fds

/-- A call made in `w₀` has `held` open in `w`, and nothing else of its
own. -/
structure Holding (w₀ : World) (held : List Nat) (w : World) : Prop where
  history : ∃ hs own, w.history = w₀.history ++ hs ∧ owned hs = some own ∧ own.Perm held
  nodup : held.Nodup
  others : ∀ d, d ∉ held → Fd.get w.table d = Fd.get w₀.table d
  fresh : ∀ d ∈ held, Fd.get w₀.table d = none
  opened : ∀ d ∈ held, (Fd.get w.table d).isSome

section Holding

variable {w₀ w w' : World} {held : List Nat}

theorem Holding.quiet {fds : List Nat} {e : Event} (h : Holding w₀ held w)
    (hq : Quiet fds e w w') (hfds : ∀ d ∈ fds, d ∈ held) (he : ∀ own, e.own own = some own) :
    Holding w₀ held w' := by
  obtain ⟨hs, own, hh, hown, hperm⟩ := h.history
  refine ⟨⟨hs ++ [e], own, ?_, ?_, hperm⟩, h.nodup, fun d hd => ?_, h.fresh, fun d hd => ?_⟩
  · rw [hq.history, hh, List.append_assoc]
  · rw [owned_append hown, he]
  · rw [hq.table d fun hmem => hd (hfds d hmem)]
    exact h.others d hd
  · rw [hq.same d]
    exact h.opened d hd

theorem Holding.opens {fd : Nat} {name : Addr} {held' : List Nat} (h : Holding w₀ held w)
    (ho : Opens fd name w w') (hheld : held'.Perm (fd :: held)) : Holding w₀ held' w' := by
  obtain ⟨hs, own, hh, hown, hperm⟩ := h.history
  -- what is held is open, so the number is new
  have hnew : fd ∉ held := by
    intro hmem
    have hopen := h.opened fd hmem
    rw [ho.free] at hopen
    exact nomatch hopen
  have hstep : Event.own own (.ksysOpen w.limit name fd) = some (fd :: own) := by
    have hnonneg : ¬ (fd : Int) < 0 := by omega
    simp only [Event.own, if_neg hnonneg, Int.toNat_natCast,
      if_neg fun hmem => hnew (hperm.mem_iff.mp hmem)]
  have hmem : ∀ d, d ∈ held' ↔ d = fd ∨ d ∈ held := by
    intro d
    rw [hheld.mem_iff, List.mem_cons]
  refine ⟨⟨hs ++ [.ksysOpen w.limit name fd], fd :: own, ?_, ?_, ?_⟩, ?_, fun d hd => ?_,
    fun d hd => ?_, fun d hd => ?_⟩
  · rw [ho.history, hh, List.append_assoc]
  · rw [owned_append hown, hstep]
  · exact (hperm.cons fd).trans hheld.symm
  · exact hheld.nodup_iff.mpr (List.nodup_cons.mpr ⟨hnew, h.nodup⟩)
  · rw [hmem, not_or] at hd
    rw [ho.table d hd.1]
    exact h.others d hd.2
  · rcases (hmem d).mp hd with rfl | hd
    · rw [← h.others d hnew]
      exact ho.free
    · exact h.fresh d hd
  · rcases (hmem d).mp hd with rfl | hd
    · exact ho.opened
    · have hne : d ≠ fd := by
        rintro rfl
        exact hnew hd
      rw [ho.table d hne]
      exact h.opened d hd

theorem Holding.closes {fd : Nat} {held' : List Nat} (h : Holding w₀ held w)
    (hc : Closes fd w w') (hheld : held.Perm (fd :: held')) : Holding w₀ held' w' := by
  obtain ⟨hs, own, hh, hown, hperm⟩ := h.history
  have hmem : ∀ d, d ∈ held ↔ d = fd ∨ d ∈ held' := by
    intro d
    rw [hheld.mem_iff, List.mem_cons]
  obtain ⟨hout, hnodup⟩ := List.nodup_cons.mp (hheld.nodup_iff.mp h.nodup)
  have hfd : fd ∈ held := (hmem fd).mpr (.inl rfl)
  have hstep : Event.own own (.ksysClose fd) = some (own.erase fd) :=
    if_pos (hperm.mem_iff.mpr hfd)
  refine ⟨⟨hs ++ [.ksysClose fd], own.erase fd, ?_, ?_, ?_⟩, hnodup, fun d hd => ?_,
    fun d hd => ?_, fun d hd => ?_⟩
  · rw [hc.history, hh, List.append_assoc]
  · rw [owned_append hown, hstep]
  · have herase := (hperm.trans hheld).erase fd
    rwa [List.erase_cons_head] at herase
  · by_cases hd' : d = fd
    · subst hd'
      rw [hc.closed, h.fresh d hfd]
    · rw [hc.table d hd']
      exact h.others d fun hmem' => ((hmem d).mp hmem').elim hd' hd
  · exact h.fresh d ((hmem d).mpr (.inr hd))
  · have hne : d ≠ fd := by
      rintro rfl
      exact hout hd
    rw [hc.table d hne]
    exact h.opened d ((hmem d).mpr (.inr hd))

end Holding

/-- The descriptors are in order, and on return so is the address limit. -/
structure Clean (w₀ : World) (c : Config) : Prop where
  holding : Holding w₀ c.pc.held c.world
  limit : ∀ r, c.pc = .returned r → c.world.limit = w₀.limit

theorem own_openFail (limit : AddrLimit) (name : Addr) (e : Errno) (own : List Nat) :
    Event.own own (.ksysOpen limit name e.code) = some own :=
  if_pos e.neg

theorem clean_step {env : Env} {args : Addr} {argslen : Nat} {w₀ : World} {c c' : Config}
    (h : Clean w₀ c) (hstep : Step env args argslen w₀.limit c c') : Clean w₀ c' := by
  have hh := h.holding
  cases hstep with
  | paramsFault _ _ hq => exact ⟨hh.quiet hq nofun fun _ => rfl, nofun⟩
  | params _ hq => exact ⟨hh.quiet hq nofun fun _ => rfl, nofun⟩
  | openOutFail _ hq => exact ⟨hh.quiet hq nofun (own_openFail _ _ _), nofun⟩
  | openOut _ ho => exact ⟨hh.opens ho (.refl _), nofun⟩
  | last => exact ⟨hh, nofun⟩
  | nameFault _ _ _ hq => exact ⟨hh.quiet hq nofun fun _ => rfl, nofun⟩
  | head _ _ hq => exact ⟨hh.quiet hq nofun fun _ => rfl, nofun⟩
  | name hq => exact ⟨hh.quiet hq nofun fun _ => rfl, nofun⟩
  | openInFail _ hq => exact ⟨hh.quiet hq nofun (own_openFail _ _ _), nofun⟩
  | openIn _ ho => exact ⟨hh.opens ho (.swap ..), nofun⟩
  | eof hq => exact ⟨hh.quiet hq (by simp [Pc.held]) fun _ => rfl, nofun⟩
  | readFail _ hq => exact ⟨hh.quiet hq (by simp [Pc.held]) fun _ => rfl, nofun⟩
  | read _ _ hq => exact ⟨hh.quiet hq (by simp [Pc.held]) fun _ => rfl, nofun⟩
  | writeFail _ hq => exact ⟨hh.quiet hq (by simp [Pc.held]) fun _ => rfl, nofun⟩
  | write hq => exact ⟨hh.quiet hq (by simp [Pc.held]) fun _ => rfl, nofun⟩
  | count _ hq => exact ⟨hh.quiet hq nofun fun _ => rfl, nofun⟩
  | closeIn hc => exact ⟨hh.closes hc (.swap ..), nofun⟩
  | close hc => exact ⟨hh.closes hc (.refl _), nofun⟩
  | restore => exact ⟨⟨hh.history, hh.nodup, hh.others, hh.fresh, hh.opened⟩, fun _ _ => rfl⟩

/-! ## Answers -/

/-- The event is the answer of the environment to the history before it. -/
def Event.Answers (env : Env) (h : List Event) : Event → Prop
  | .copyFromUser _ _ len left => left = min (env.copyFromUser h) len
  | .copyToUser _ _ len left => left = min (env.copyToUser h) len
  | .ksysOpen _ _ result => (∃ e, env.ksysOpen h = some e ∧ result = e.code) ∨
      env.ksysOpen h = none ∧ 0 ≤ result
  | .ksysRead _ result => 0 ≤ result ∨ ∃ e, env.ksysRead h = .error e ∧ result = e.code
  | .ksysWrite _ _ result => 0 ≤ result ∨ ∃ e, env.ksysWrite h = .error e ∧ result = e.code
  | .printk _ | .ksysClose _ => True

/-- What is held is open. -/
theorem Clean.get_ne_none {w₀ w : World} {pc : Pc} {b : Int32} {fd : Nat}
    (h : Clean w₀ ⟨pc, w, b⟩) (hfd : fd ∈ pc.held) : Fd.get w.table fd ≠ none :=
  Option.isSome_iff_ne_none.mp (h.holding.opened fd hfd)

/-- So only the environment makes a read or a write fail. -/
theorem step_answers {env : Env} {args : Addr} {argslen : Nat} {oldFs : AddrLimit} {w₀ : World}
    {c c' : Config} (h : Clean w₀ c) (hstep : Step env args argslen oldFs c c') :
    c'.world.history = c.world.history ∨
      ∃ e, c'.world.history = c.world.history ++ [e] ∧ e.Answers env c.world.history := by
  cases hstep with
  | paramsFault hleft _ hq => exact .inr ⟨_, hq.history, hleft⟩
  | params hleft hq => exact .inr ⟨_, hq.history, hleft.symm⟩
  | openOutFail hwhy hq => exact .inr ⟨_, hq.history, .inl ⟨_, hwhy, rfl⟩⟩
  | openOut hwhy ho => exact .inr ⟨_, ho.history, .inr ⟨hwhy, Int.natCast_nonneg _⟩⟩
  | last => exact .inl rfl
  | nameFault _ hleft _ hq => exact .inr ⟨_, hq.history, hleft⟩
  | head _ hleft hq => exact .inr ⟨_, hq.history, hleft.symm⟩
  | name hq => exact .inr ⟨_, hq.history, trivial⟩
  | openInFail hwhy hq => exact .inr ⟨_, hq.history, .inl ⟨_, hwhy, rfl⟩⟩
  | openIn hwhy ho => exact .inr ⟨_, ho.history, .inr ⟨hwhy, Int.natCast_nonneg _⟩⟩
  | eof hq => exact .inr ⟨_, hq.history, .inl (Int.le_refl 0)⟩
  | readFail hwhy hq =>
      have hopen := h.get_ne_none (List.mem_cons_of_mem _ (List.mem_singleton_self _))
      exact .inr ⟨_, hq.history, .inr ⟨_, hwhy.resolve_right hopen, rfl⟩⟩
  | read _ _ hq => exact .inr ⟨_, hq.history, .inl (Int.natCast_nonneg _)⟩
  | writeFail hwhy hq =>
      have hopen := h.get_ne_none (List.mem_cons_self ..)
      exact .inr ⟨_, hq.history, .inr ⟨_, hwhy.resolve_right hopen, rfl⟩⟩
  | write hq => exact .inr ⟨_, hq.history, .inl (Int.natCast_nonneg _)⟩
  | count hleft hq => exact .inr ⟨_, hq.history, hleft⟩
  | closeIn hc => exact .inr ⟨_, hc.history, trivial⟩
  | close hc => exact .inr ⟨_, hc.history, trivial⟩
  | restore => exact .inl rfl

/-- A call made in `w₀` has so far done what the environment answered. -/
structure Answered (env : Env) (w₀ : World) (c : Config) : Prop where
  clean : Clean w₀ c
  history : ∃ hs, c.world.history = w₀.history ++ hs ∧
    ∀ pre e post, hs = pre ++ e :: post → e.Answers env (w₀.history ++ pre)

theorem answered_step {env : Env} {args : Addr} {argslen : Nat} {w₀ : World} {c c' : Config}
    (h : Answered env w₀ c) (hstep : Step env args argslen w₀.limit c c') :
    Answered env w₀ c' := by
  refine ⟨clean_step h.clean hstep, ?_⟩
  obtain ⟨hs, hh, hans⟩ := h.history
  rcases step_answers h.clean hstep with hsame | ⟨e, hnext, he⟩
  · exact ⟨hs, hsame.trans hh, hans⟩
  · refine ⟨hs ++ [e], ?_, ?_⟩
    · rw [hnext, hh, List.append_assoc]
    · intro pre e' post hsplit
      rcases Lts.split_concat hsplit with ⟨rfl, rfl, -⟩ | ⟨post, hhs, -⟩
      · rwa [← hh]
      · exact hans pre e' post hhs

theorem answered_start (env : Env) (w₀ : World) :
    Answered env w₀ (start w₀) := by
  refine ⟨⟨⟨⟨[], [], (List.append_nil _).symm, rfl, .refl _⟩, .nil, ?_, ?_, ?_⟩, nofun⟩,
    ⟨[], (List.append_nil _).symm, ?_⟩⟩
  · exact fun _ _ => rfl
  · exact nofun
  · exact nofun
  · intro pre e post hnil
    simp at hnil

theorem xmerge_answers {env : Env} {args : Addr} {argslen fuel : Nat} {w₀ w : World} {r : Int}
    {hs : List Event} (h : xmerge env args argslen fuel w₀ = some (r, w))
    (hh : w.history = w₀.history ++ hs) :
    ∀ pre e post, hs = pre ++ e :: post → e.Answers env (w₀.history ++ pre) := by
  obtain ⟨b, hans⟩ := returns_inv (fun _ _ => answered_step) (answered_start env w₀) h
  obtain ⟨hs', hh', hall⟩ := hans.history
  obtain rfl : hs = hs' := List.append_cancel_left (hh.symm.trans hh')
  exact hall

/-! ## The result -/

/-- However the call returns, the address limit is what it was, every
descriptor that the call opened has been closed once, no other has been
closed, and the table is as before. -/
theorem xmerge_cleans_up {env : Env} {args : Addr} {argslen fuel : Nat} {w₀ w : World} {r : Int}
    (h : xmerge env args argslen fuel w₀ = some (r, w)) :
    w.limit = w₀.limit ∧ (∃ hs, w.history = w₀.history ++ hs ∧ owned hs = some []) ∧
      ∀ d, Fd.get w.table d = Fd.get w₀.table d := by
  obtain ⟨b, hans⟩ := returns_inv (fun _ _ => answered_step) (answered_start env w₀) h
  have hclean := hans.clean
  obtain ⟨hs, own, hh, hown, hperm⟩ := hclean.holding.history
  rw [List.perm_nil.mp hperm] at hown
  exact ⟨hclean.limit r rfl, ⟨hs, hh, hown⟩, fun d => hclean.holding.others d List.not_mem_nil⟩

/-- A read of the second file fails. -/
theorem xmerge_cleans_up_failing : ∃ w,
    xmerge (sampleEnv failingReads fun _ => .count 4096) 0 40 4 sampleWorld = some (-5, w) ∧
      w.limit = .user ∧ owned w.history = some [] ∧ ∀ d, Fd.get w.table d = none := by
  have hsome : (xmerge (sampleEnv failingReads fun _ => .count 4096) 0 40 4
      sampleWorld).map Prod.fst = some (-5) := by
    decide +kernel
  obtain ⟨⟨r, w⟩, hret, rfl⟩ := Option.map_eq_some_iff.mp hsome
  obtain ⟨hlimit, ⟨hs, hh, hown⟩, htable⟩ := xmerge_cleans_up hret
  obtain rfl : w.history = hs := hh
  exact ⟨w, hret, hlimit, hown, fun d => (htable d).trans (Fd.get_nil d)⟩

end Xm

end Comp4511
