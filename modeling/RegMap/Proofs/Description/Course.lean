import RegMap.Description.Load
import RegMap.Proofs.Markup.Nesting

/-!
Courses of loading one behind the other. What a course notes comes in front of what those behind it
note, and a course that comes to an end has done so in each of its parts. `Taken` says all that can
come of an event in such a course.
-/

set_option autoImplicit false

namespace RegMap.Description

open Markup

namespace Loading

variable {α β : Type} {l : Loading α} {f : α → Loading β} {a : α} {b : β}

theorem bind_of_ok (h : l.result = .ok a) : l >>= f = ⟨l.notes ++ (f a).notes, (f a).result⟩ := by
  change Loading.bind l f = _
  simp only [Loading.bind, h]

theorem result_bind (h : l.result = .ok a) : (l >>= f).result = (f a).result := by
  rw [bind_of_ok h]

theorem bind_of_error {e : Error} (h : l.result = .error e) : l >>= f = ⟨l.notes, .error e⟩ := by
  change Loading.bind l f = _
  simp only [Loading.bind, h]

theorem bind_congr_ok {g : α → Loading β} (h : ∀ a, l.result = .ok a → f a = g a) :
    l >>= f = l >>= g := by
  cases hl : l.result with
  | error e => rw [bind_of_error hl, bind_of_error hl]
  | ok a => rw [bind_of_ok hl, bind_of_ok hl, h a hl]

theorem ok_of_bind (h : (l >>= f).result = .ok b) :
    ∃ a, l.result = .ok a ∧ (f a).result = .ok b := by
  cases hl : l.result with
  | error e => rw [bind_of_error hl] at h; cases h
  | ok a =>
    rw [bind_of_ok hl] at h
    exact ⟨a, rfl, h⟩

theorem bind_pure_eq (l : Loading α) : l >>= pure = l := by
  cases hl : l.result with
  | error e => rw [bind_of_error hl, ← hl]
  | ok a =>
    rw [bind_of_ok hl]
    change (⟨l.notes ++ [], .ok a⟩ : Loading α) = l
    rw [List.append_nil, ← hl]

theorem bind_bind_eq {γ : Type} (l : Loading α) (f : α → Loading β) (g : β → Loading γ) :
    l >>= f >>= g = l >>= fun a => f a >>= g := by
  cases hl : l.result with
  | error e => rw [bind_of_error hl, bind_of_error hl, bind_of_error rfl]
  | ok a =>
    rw [bind_of_ok hl, bind_of_ok hl]
    cases hf : (f a).result with
    | error e => rw [bind_of_error hf, bind_of_error rfl]
    | ok b => rw [bind_of_ok hf, bind_of_ok rfl, List.append_assoc]

instance : LawfulMonad Loading :=
  LawfulMonad.mk' Loading (fun l => bind_pure_eq l) (fun _ _ => rfl) bind_bind_eq

theorem map_eq {γ : Type} (f : α → γ) (l : Loading α) : f <$> l = ⟨l.notes, l.result.map f⟩ := by
  rw [map_eq_pure_bind]
  cases hl : l.result with
  | error e => exact bind_of_error hl
  | ok a =>
    rw [bind_of_ok hl]
    exact congrArg (Loading.mk · (.ok (f a))) (List.append_nil l.notes)

end Loading

section

variable {policy : Policy} {tag : Tag}

def LeftOut (policy : Policy) (tag : Tag) : Prop :=
  ∃ attributes problem, tag.attributes = .ok attributes ∧
    .recovered problem ∈ (readSpec policy tag).notes ∧
    (problem = .unknownType (valueOf attributes "name") (valueOf attributes "type") ∨
      problem = .zeroWidth (valueOf attributes "name"))

theorem recovered_of_none {α : Type} {result : Except Error (Option α)} (hr : result ≠ .ok none)
    (h : (Loading.recover policy none result).result = .ok none) :
    ∃ problem, result = .error problem ∧
      (Loading.recover policy none result).notes = [.recovered problem] := by
  cases result with
  | ok a => exact absurd (by cases policy <;> exact h) hr
  | error problem =>
    refine ⟨problem, rfl, ?_⟩
    cases policy with
    | strict => cases h
    | lenient =>
      rw [Loading.recover] at h ⊢
      split at h
      · next hrecoverable => rw [if_pos hrecoverable]
      · cases h

theorem attributes_of_ok {attributes : List Attribute}
    (h : (attributesOf tag).result = .ok attributes) : tag.attributes = .ok attributes := by
  unfold attributesOf Loading.ofExcept at h
  cases ht : tag.attributes with
  | error fault => rw [ht] at h; cases h
  | ok found =>
    rw [ht] at h
    exact congrArg Except.ok (Except.ok.inj h)

theorem attributesOf_eq_pure {attributes : List Attribute} (h : tag.attributes = .ok attributes) :
    attributesOf tag = pure attributes := by
  rw [attributesOf, h]
  rfl

theorem eq_unknownType {attributes : List Attribute} {problem : Error}
    (h : (typeOf attributes).map some = .error problem) :
    problem = .unknownType (valueOf attributes "name") (valueOf attributes "type") := by
  unfold typeOf at h
  dsimp only at h
  split at h
  · cases h
  · cases hof : RegisterType.ofName (valueOf attributes "type") with
    | ok type => rw [hof] at h; cases h
    | error e =>
      rw [hof] at h
      exact (Except.error.inj h).symm

theorem leftOut_of_none (h : (readSpec policy tag).result = .ok none) : LeftOut policy tag := by
  unfold LeftOut
  unfold readSpec at h ⊢
  obtain ⟨attributes, hattributes, h⟩ := Loading.ok_of_bind h
  obtain ⟨type, htype, h⟩ := Loading.ok_of_bind h
  rw [Loading.bind_of_ok hattributes]
  dsimp only
  rw [Loading.bind_of_ok htype]
  cases type with
  | none =>
    have hr : (typeOf attributes).map some ≠ .ok none := by
      cases typeOf attributes <;> nofun
    obtain ⟨problem, hproblem, hnotes⟩ := recovered_of_none hr htype
    refine ⟨attributes, problem, attributes_of_ok hattributes, ?_, .inl (eq_unknownType hproblem)⟩
    rw [hnotes]
    exact List.mem_append_right _ (List.mem_append_left _ (List.mem_singleton_self _))
  | some type =>
    obtain ⟨width, hwidth, h⟩ := Loading.ok_of_bind h
    dsimp only at h ⊢
    rw [Loading.bind_of_ok hwidth]
    by_cases hzero : width = 0
    · rw [if_pos hzero] at h ⊢
      have hr : Except.error (.zeroWidth (valueOf attributes "name")) ≠
          (.ok none : Except Error (Option RegisterSpec)) := nofun
      obtain ⟨problem, hproblem, hnotes⟩ := recovered_of_none hr h
      refine ⟨attributes, problem, attributes_of_ok hattributes, ?_,
        .inr (Except.error.inj hproblem).symm⟩
      rw [hnotes]
      exact List.mem_append_right _ (List.mem_append_right _
        (List.mem_append_right _ (List.mem_singleton_self _)))
    · rw [if_neg hzero] at h
      obtain ⟨resetValue, -, h⟩ := Loading.ok_of_bind h
      split at h
      · obtain ⟨vector, -, h⟩ := Loading.ok_of_bind h
        cases h
      · cases h

end

/-- What an event makes of the progress, and the notes made of it. -/
inductive Taken (settings : Settings) (p : Progress) : Event → List Note → Progress → Prop where
  | opened {tag : Tag} {g : RegisterGroup} (hn : tag.name = groupTag)
      (hg : (readGroup settings tag).result = .ok g) :
      Taken settings p (.start tag) ((readGroup settings tag).notes ++
        p.current.toList.map fun unclosed => .groupNotClosed unclosed.name) ⟨p.groups, some g⟩
  | whole {tag : Tag} {g : RegisterGroup} (hn : tag.name = groupTag)
      (hg : (readGroup settings tag).result = .ok g) :
      Taken settings p (.empty tag) (readGroup settings tag).notes ⟨p.finished ++ [g], p.current⟩
  | added {e : Event} {tag : Tag} {g : RegisterGroup} {spec : RegisterSpec}
      (he : e.named? registerTag = some tag) (hp : p.current = some g)
      (hs : (readSpec settings.policy tag).result = .ok (some spec)) :
      Taken settings p e ((readSpec settings.policy tag).notes ++ (addSpec g spec).notes)
        ⟨p.finished, some (g.add spec)⟩
  | refused {e : Event} {tag : Tag} {g : RegisterGroup} (he : e.named? registerTag = some tag)
      (hp : p.current = some g) (hs : (readSpec settings.policy tag).result = .ok none) :
      Taken settings p e (readSpec settings.policy tag).notes p
  | stray {e : Event} {tag : Tag} (he : e.named? registerTag = some tag) (hp : p.current = none) :
      Taken settings p e [.strayRegister] p
  | closed : Taken settings p (.close groupTag) [] ⟨p.groups, none⟩
  | passed {e : Event} (hg : e.named? groupTag = none) (hr : e.named? registerTag = none)
      (hc : e ≠ .close groupTag) : Taken settings p e [] p

section

variable {settings : Settings} {p q : Progress} {es more : List Event} {e : Event} {tag : Tag}
  {g : RegisterGroup} {text : List Char} {gs : List RegisterGroup}

theorem openGroup_eq (p : Progress) (g : RegisterGroup) :
    p.openGroup g = ⟨p.current.toList.map fun unclosed => .groupNotClosed unclosed.name,
      .ok ⟨p.groups, some g⟩⟩ := by
  unfold Progress.openGroup Progress.groups
  cases p.current with
  | none =>
    rw [Option.toList_none, List.append_nil]
    rfl
  | some unclosed => rfl

theorem step_of_register (he : e.named? registerTag = some tag) :
    p.step settings e = p.register settings.policy tag := by
  obtain ⟨hn, rfl | rfl⟩ := named?_eq_some_iff.mp he
  · rw [Progress.step, if_neg (hn ▸ registerTag_ne_groupTag), if_pos hn]
  · rw [Progress.step, if_neg (hn ▸ registerTag_ne_groupTag), if_pos hn]

theorem step_eq_pure (settings : Settings) (p : Progress) (hg : e.named? groupTag = none)
    (hr : e.named? registerTag = none) (hc : e ≠ .close groupTag) : p.step settings e = pure p := by
  cases e with
  | start tag =>
    simp only [Event.named?, ite_eq_right_iff, reduceCtorEq, imp_false] at hg hr
    rw [Progress.step, if_neg hg, if_neg hr]
  | empty tag =>
    simp only [Event.named?, ite_eq_right_iff, reduceCtorEq, imp_false] at hg hr
    rw [Progress.step, if_neg hg, if_neg hr]
  | close name =>
    have hname : name ≠ groupTag := fun h => hc (congrArg Event.close h)
    rw [Progress.step, if_neg hname]

theorem taken_of_register (he : e.named? registerTag = some tag)
    (h : (p.register settings.policy tag).result = .ok q) :
    Taken settings p e (p.register settings.policy tag).notes q := by
  unfold Progress.register at h ⊢
  cases hc : p.current with
  | none =>
    simp only [hc] at h ⊢
    obtain rfl := Except.ok.inj h
    exact .stray he hc
  | some group =>
    simp only [hc] at h ⊢
    obtain ⟨spec, hs, hq⟩ := Loading.ok_of_bind h
    rw [Loading.bind_of_ok hs]
    cases spec with
    | none =>
      obtain rfl := Except.ok.inj hq
      have hrefused := Taken.refused he hc hs
      rw [← List.append_nil (readSpec settings.policy tag).notes] at hrefused
      exact hrefused
    | some spec =>
      obtain rfl := Except.ok.inj hq
      have hadded := Taken.added he hc hs
      rw [← List.append_nil (addSpec group spec).notes] at hadded
      exact hadded

theorem taken_of_not_group (hg : e.named? groupTag = none) (hc : e ≠ .close groupTag)
    (he : e.named? registerTag = if tag.name = registerTag then some tag else none)
    (h : (if tag.name = registerTag then p.register settings.policy tag else pure p).result =
      .ok q) :
    Taken settings p e
      (if tag.name = registerTag then p.register settings.policy tag else pure p).notes q := by
  by_cases hr : tag.name = registerTag
  · rw [if_pos hr] at he h ⊢
    exact taken_of_register he h
  · rw [if_neg hr] at he h ⊢
    obtain rfl := Except.ok.inj h
    exact .passed hg he hc

theorem taken_of_start (h : (p.step settings (.start tag)).result = .ok q) :
    Taken settings p (.start tag) (p.step settings (.start tag)).notes q := by
  rw [Progress.step] at h ⊢
  by_cases hn : tag.name = groupTag
  · rw [if_pos hn] at h ⊢
    obtain ⟨g, hg, hq⟩ := Loading.ok_of_bind h
    rw [openGroup_eq] at hq
    obtain rfl := Except.ok.inj hq
    rw [Loading.bind_of_ok hg, openGroup_eq]
    exact .opened hn hg
  · rw [if_neg hn] at h ⊢
    exact taken_of_not_group (if_neg hn) nofun rfl h

theorem taken_of_empty (h : (p.step settings (.empty tag)).result = .ok q) :
    Taken settings p (.empty tag) (p.step settings (.empty tag)).notes q := by
  rw [Progress.step] at h ⊢
  by_cases hn : tag.name = groupTag
  · rw [if_pos hn] at h ⊢
    obtain ⟨g, hg, hq⟩ := Loading.ok_of_bind h
    obtain rfl := Except.ok.inj hq
    have hwhole := Taken.whole (p := p) hn hg
    rw [← List.append_nil (readGroup settings tag).notes] at hwhole
    rw [Loading.bind_of_ok hg]
    exact hwhole
  · rw [if_neg hn] at h ⊢
    exact taken_of_not_group (if_neg hn) nofun rfl h

theorem taken_of_step (h : (p.step settings e).result = .ok q) :
    Taken settings p e (p.step settings e).notes q := by
  cases e with
  | start tag => exact taken_of_start h
  | empty tag => exact taken_of_empty h
  | close name =>
    rw [Progress.step] at h ⊢
    split at h
    · next hn =>
      obtain rfl := Except.ok.inj h
      rw [if_pos hn, hn]
      exact .closed
    · next hn =>
      obtain rfl := Except.ok.inj h
      rw [if_neg hn]
      exact .passed rfl rfl fun hclose => hn (Event.close.inj hclose)

theorem run_append (settings : Settings) (p : Progress) (es more : List Event) :
    p.run settings (es ++ more) = p.run settings es >>= fun q => q.run settings more := by
  induction es generalizing p with
  | nil => simp [Progress.run]
  | cons e es ih => simp only [List.cons_append, Progress.run, ih, bind_assoc]

theorem run_concat (settings : Settings) (p : Progress) (es : List Event) (e : Event) :
    p.run settings (es ++ [e]) = p.run settings es >>= fun q => q.step settings e := by
  rw [run_append]
  simp [Progress.run]

/-- What holds at the start and is kept by every event that can be taken in holds after a run. -/
theorem run_invariant {I : List Event → Progress → Prop} (hstart : I [] {})
    (hstep : ∀ es e p notes q, Nested (es ++ [e]) → I es p → Taken settings p e notes q →
      I (es ++ [e]) q)
    (hn : Nested es) (h : (Progress.run settings {} es).result = .ok p) : I es p := by
  induction es using List.reverseRecOn generalizing p with
  | nil =>
    obtain rfl : ({} : Progress) = p := Except.ok.inj h
    exact hstart
  | append_singleton es e ih =>
    rw [run_concat] at h
    obtain ⟨q, hq, he⟩ := Loading.ok_of_bind h
    exact hstep es e q _ p hn (ih (nested_concat hn).1 hq) (taken_of_step he)

/-- Each event of a run that comes to an end is taken in, and what is noted of it is among the notes
of the run. -/
theorem taken_of_run {before after : List Event}
    (h : (p.run settings (before ++ e :: after)).result = .ok q) :
    ∃ r s notes, (p.run settings before).result = .ok r ∧ Taken settings r e notes s ∧
      notes <:+: (p.run settings (before ++ e :: after)).notes := by
  rw [run_append] at h ⊢
  obtain ⟨r, hr, hrest⟩ := Loading.ok_of_bind h
  obtain ⟨s, hs, -⟩ := Loading.ok_of_bind hrest
  refine ⟨r, s, _, hr, taken_of_step hs, ?_⟩
  rw [Loading.bind_of_ok hr, Progress.run, Loading.bind_of_ok hs, ← List.append_assoc]
  exact List.infix_append _ _ _

theorem load_eq (settings : Settings) (text : List Char) (h : (events text).fault = none) :
    load settings text = Progress.groups <$> Progress.run settings {} (events text).items := by
  simp only [load, h, map_eq_pure_bind]

theorem run_of_load (h : (load settings text).result = .ok gs) :
    (events text).fault = none ∧
      ∃ p, (Progress.run settings {} (events text).items).result = .ok p ∧ p.groups = gs := by
  obtain ⟨p, hp, hend⟩ := Loading.ok_of_bind h
  cases hf : (events text).fault with
  | some fault => rw [hf] at hend; cases hend
  | none =>
    rw [hf] at hend
    exact ⟨rfl, p, hp, Except.ok.inj hend⟩

end

end RegMap.Description
