import RegMap.Description.Load

/-!
Loading under the two policies. The strict course is the lenient one up to the first problem that
the lenient one goes on from; that problem ends it.
-/

set_option autoImplicit false

namespace RegMap.Description

open Markup

def Lasting {α : Type} (result : Except Error α) : Prop :=
  ∀ e, result = .error e → e.recoverable = false

/-- A strict course against the lenient one of the same input. -/
inductive Agree {α : Type} : Loading α → Loading α → Prop where
  | same {notes : List Note} {result : Except Error α} (hn : ∀ n ∈ notes, n.problem? = none)
      (hl : Lasting result) : Agree ⟨notes, result⟩ ⟨notes, result⟩
  | stopped {before after : List Note} {e : Error} {result : Except Error α}
      (hn : ∀ n ∈ before, n.problem? = none) (he : e.recoverable = true) (hl : Lasting result) :
      Agree ⟨before, .error e⟩ ⟨before ++ .recovered e :: after, result⟩

namespace Agree

variable {α β : Type} {s l : Loading α} {f f' : α → Loading β}

theorem pure (a : α) : Agree (Pure.pure a : Loading α) (Pure.pure a) :=
  same (by simp) (by simp [Lasting])

theorem note {n : Note} (h : n.problem? = none) : Agree (Loading.note n) (Loading.note n) :=
  same (by simpa using h) (by simp [Lasting])

theorem ofExcept {result : Except Error α} (h : Lasting result) :
    Agree (Loading.ofExcept result) (Loading.ofExcept result) :=
  same (by simp) h

theorem fail {e : Error} (h : e.recoverable = false) :
    Agree (Loading.fail e : Loading α) (Loading.fail e) :=
  same (by simp) (by simpa [Lasting] using h)

theorem recover (fallback : α) (result : Except Error α) :
    Agree (Loading.recover .strict fallback result) (Loading.recover .lenient fallback result) := by
  cases result with
  | ok a => exact same (by simp) (by simp [Lasting])
  | error e =>
    cases he : e.recoverable with
    | true =>
      have hstop : Agree ⟨[], .error e⟩ ⟨[] ++ [.recovered e], .ok fallback⟩ :=
        stopped (by simp) he (by simp [Lasting])
      simpa [Loading.recover, he] using hstop
    | false =>
      have hsame : Agree (α := α) ⟨[], .error e⟩ ⟨[], .error e⟩ :=
        same (by simp) (by simpa [Lasting] using he)
      simpa [Loading.recover, he] using hsame

theorem lasting (h : Agree s l) : Lasting l.result := by
  cases h with
  | same hn hl => exact hl
  | stopped hn he hl => exact hl

theorem bind (h : Agree s l) (hf : ∀ a, Agree (f a) (f' a)) : Agree (s >>= f) (l >>= f') := by
  cases h with
  | @same notes result hn hl =>
    cases result with
    | error e => exact same hn (by simpa [Lasting] using hl)
    | ok a =>
      -- so far the two are the same, and what follows may still part them
      have ha := hf a
      change Agree ⟨notes ++ (f a).notes, (f a).result⟩ ⟨notes ++ (f' a).notes, (f' a).result⟩
      generalize f a = s', f' a = l' at ha ⊢
      cases ha with
      | @same notes' result' hn' hl' =>
        refine same (fun n hm => ?_) hl'
        exact (List.mem_append.mp hm).elim (hn n) (hn' n)
      | @stopped before after e result' hn' he hl' =>
        rw [← List.append_assoc]
        refine stopped (fun n hm => ?_) he hl'
        exact (List.mem_append.mp hm).elim (hn n) (hn' n)
  | @stopped before after e result hn he hl =>
    cases result with
    | error e' => exact stopped hn he (by simpa [Lasting] using hl)
    | ok a =>
      have hl' : Lasting (f' a).result := (hf a).lasting
      change Agree ⟨before, .error e⟩
        ⟨before ++ .recovered e :: after ++ (f' a).notes, (f' a).result⟩
      rw [List.append_assoc, List.cons_append]
      exact stopped hn he hl'

end Agree

section

variable (bus : Bus) (attributes : List Attribute) (tag : Tag) (p : Progress)

theorem agree_attributesOf : Agree (attributesOf tag) (attributesOf tag) := by
  refine Agree.ofExcept fun e he => ?_
  cases ht : tag.attributes with
  | ok attributes =>
    rw [ht] at he
    cases he
  | error fault =>
    rw [ht] at he
    obtain rfl : Error.ofTagFault fault = e := Except.error.inj he
    cases fault <;> rfl

theorem agree_numberOf (key : String) (default : Nat) :
    Agree (numberOf .strict attributes key default) (numberOf .lenient attributes key default) := by
  unfold numberOf
  dsimp only
  split
  · exact Agree.pure _
  · exact Agree.recover _ _

theorem agree_busOf :
    Agree (busOf ⟨.strict, bus⟩ attributes) (busOf ⟨.lenient, bus⟩ attributes) := by
  refine (agree_numberOf _ _ _).bind fun addressWidth => ?_
  refine (agree_numberOf _ _ _).bind fun baseAddress => ?_
  refine (agree_numberOf _ _ _).bind fun dataWidth => ?_
  exact (agree_numberOf _ _ _).bind fun memoryMapped => Agree.pure _

theorem agree_readGroup : Agree (readGroup ⟨.strict, bus⟩ tag) (readGroup ⟨.lenient, bus⟩ tag) := by
  refine (agree_attributesOf tag).bind fun attributes => ?_
  dsimp only
  split
  · exact Agree.fail rfl
  · exact (agree_busOf bus attributes).bind fun bus =>
      (Agree.note (by rfl)).bind fun _ => Agree.pure _

theorem agree_readSpec : Agree (readSpec .strict tag) (readSpec .lenient tag) := by
  refine (agree_attributesOf tag).bind fun attributes => ?_
  refine (Agree.recover _ _).bind fun type => ?_
  cases type with
  | none => exact Agree.pure _
  | some type =>
    refine (agree_numberOf _ _ _).bind fun width => ?_
    by_cases hw : width = 0
    · simp only [hw, if_true]
      exact Agree.recover _ _
    · simp only [hw, if_false]
      refine (agree_numberOf _ _ _).bind fun resetValue => ?_
      by_cases ht : type = .intFixed
      · simp only [ht, if_true]
        exact (agree_numberOf _ _ _).bind fun vector => Agree.pure _
      · simp only [ht, if_false]
        exact (Agree.pure 0).bind fun vector => Agree.pure _

theorem agree_addSpec (g : RegisterGroup) (spec : RegisterSpec) :
    Agree (addSpec g spec) (addSpec g spec) := by
  refine Agree.same (fun n hn => ?_) (by simp [Lasting])
  obtain ⟨r, -, rfl⟩ := List.mem_map.mp hn
  rfl

theorem agree_register : Agree (p.register .strict tag) (p.register .lenient tag) := by
  unfold Progress.register
  cases p.current with
  | none => exact (Agree.note (by rfl)).bind fun _ => Agree.pure _
  | some group =>
    refine (agree_readSpec tag).bind fun spec => ?_
    cases spec with
    | none => exact Agree.pure _
    | some spec => exact (agree_addSpec group spec).bind fun group => Agree.pure _

theorem agree_openGroup (group : RegisterGroup) :
    Agree (p.openGroup group) (p.openGroup group) := by
  unfold Progress.openGroup
  cases p.current with
  | none => exact Agree.pure _
  | some unclosed => exact (Agree.note (by rfl)).bind fun _ => Agree.pure _

theorem agree_step (e : Event) : Agree (p.step ⟨.strict, bus⟩ e) (p.step ⟨.lenient, bus⟩ e) := by
  cases e with
  | start tag =>
    simp only [Progress.step]
    split
    · exact (agree_readGroup bus tag).bind fun group => agree_openGroup p group
    · split
      · exact agree_register tag p
      · exact Agree.pure _
  | empty tag =>
    simp only [Progress.step]
    split
    · exact (agree_readGroup bus tag).bind fun group => Agree.pure _
    · split
      · exact agree_register tag p
      · exact Agree.pure _
  | close name =>
    simp only [Progress.step]
    split <;> exact Agree.pure _

theorem agree_run (es : List Event) :
    Agree (p.run ⟨.strict, bus⟩ es) (p.run ⟨.lenient, bus⟩ es) := by
  induction es generalizing p with
  | nil => exact Agree.pure _
  | cons e es ih => exact (agree_step bus p e).bind fun p => ih p

theorem agree_load (text : List Char) :
    Agree (load ⟨.strict, bus⟩ text) (load ⟨.lenient, bus⟩ text) := by
  refine (agree_run bus {} (events text).items).bind fun p => ?_
  cases (events text).fault with
  | none => exact Agree.pure _
  | some fault => exact Agree.fail rfl

end

namespace Agree

variable {α : Type} {s l : Loading α}

theorem filterMap_problem? {notes : List Note} (h : ∀ n ∈ notes, n.problem? = none) :
    notes.filterMap Note.problem? = [] :=
  List.filterMap_eq_nil_iff.mpr h

theorem silent (h : Agree s l) : messages s.notes = [] := by
  cases h with
  | same hn hl => simp [messages, filterMap_problem? hn]
  | stopped hn he hl => simp [messages, filterMap_problem? hn]

theorem eq_of_no_messages (h : Agree s l) (hm : messages l.notes = []) : s = l := by
  cases h with
  | same hn hl => rfl
  | stopped hn he hl => simp [messages, Note.problem?] at hm

theorem error_of_message (h : Agree s l) {m : List Char} {ms : List (List Char)}
    (hm : messages l.notes = m :: ms) :
    ∃ e, s.result = .error e ∧ e.recoverable = true ∧ e.wire = m := by
  cases h with
  | same hn hl => simp [messages, filterMap_problem? hn] at hm
  | @stopped before after e result hn he hl =>
    refine ⟨e, rfl, he, ?_⟩
    rw [messages, List.filterMap_append, filterMap_problem? hn] at hm
    simp only [List.nil_append, List.filterMap_cons, Note.problem?, List.map_cons,
      List.cons.injEq] at hm
    exact hm.1

end Agree

/-- Without a problem the policy makes no difference. With one the strict course ends in the first
that the lenient course reports, and says so in the same words. -/
theorem policies_agree (bus : Bus) (text : List Char) :
    (messages (load ⟨.lenient, bus⟩ text).notes = [] →
      (load ⟨.strict, bus⟩ text).result = (load ⟨.lenient, bus⟩ text).result) ∧
    (∀ m ms, messages (load ⟨.lenient, bus⟩ text).notes = m :: ms →
      ∃ e, (load ⟨.strict, bus⟩ text).result = .error e ∧ e.recoverable = true ∧ e.wire = m) ∧
    messages (load ⟨.strict, bus⟩ text).notes = [] ∧
    ∀ e, (load ⟨.lenient, bus⟩ text).result = .error e → e.recoverable = false := by
  have h := agree_load bus text
  refine ⟨fun hm => ?_, fun m ms hm => h.error_of_message hm, h.silent, h.lasting⟩
  rw [h.eq_of_no_messages hm]

end RegMap.Description
