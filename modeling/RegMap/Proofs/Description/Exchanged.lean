import RegMap.Proofs.Description.GroupTags
import RegMap.Proofs.Description.Joined
import RegMap.Proofs.Description.RepairedText
import RegMap.Proofs.Markup.Parts

set_option autoImplicit false

namespace RegMap.Description

open Markup

section

variable {settings : Settings} {p : Progress} {tag : Tag} {a x y name text : List Char}

theorem load_congr {s t : List Char} (h : events s = events t) :
    load settings s = load settings t := by
  rw [load_eq_bind, load_eq_bind, h]

/-- Loading is the same with either part, if both leave the same elements open and loading does the
same with their tags where it comes to the part. -/
theorem load_exchange (ha : Outside a) (h : SameNesting x y)
    (hrun : ∀ p, (Progress.run settings {} (events a).items).result = .ok p →
      p.run settings (tagEvents x) = p.run settings (tagEvents y)) (b : List Char) :
    load settings (a ++ (x ++ b)) = load settings (a ++ (y ++ b)) := by
  rcases events_exchange ha h b with hends | ⟨behind, hx, hy⟩
  · exact load_congr (by rw [hends, hends])
  · rw [load_eq_bind, load_eq_bind, hx, hy]
    simp only [run_append, bind_assoc]
    exact Loading.bind_congr_ok fun p hp => by rw [hrun p hp]

theorem tagEvents_startTag (hname : IsPlain name) (htext : Passes text)
    (hlast : text.getLast? ≠ some '/') : (constructs (bracketed (name ++ text))).fault = none ∧
      tagEvents (bracketed (name ++ text)) = [.start ⟨name ++ text⟩] := by
  have hhead := hname.head? text
  have hcontent : IsContent (name ++ text) :=
    isContent_of_passes (hname.passes.append htext) hhead.2
  have hstart : Event.ofContent (name ++ text) = .start ⟨name ++ text⟩ :=
    ofContent_eq_start_iff.mpr ⟨rfl, hhead.1, getLast?_append_ne hname.getLast?_ne hlast⟩
  exact hstart ▸ tagEvents_bracketed hcontent

theorem tagEvents_emptyTag (hname : IsPlain name) (htext : Passes text) :
    (constructs (bracketed (name ++ text ++ ['/']))).fault = none ∧
      tagEvents (bracketed (name ++ text ++ ['/'])) = [.empty ⟨name ++ text⟩] := by
  have hslash : Passes ['/'] := passes_char (by decide)
  have hhead := hname.head? (text ++ ['/'])
  rw [← List.append_assoc] at hhead
  have hcontent : IsContent (name ++ text ++ ['/']) :=
    isContent_of_passes ((hname.passes.append htext).append hslash) hhead.2
  have hempty : Event.ofContent (name ++ text ++ ['/']) = .empty ⟨name ++ text⟩ :=
    ofContent_eq_empty_iff.mpr ⟨rfl, hhead.1⟩
  exact hempty ▸ tagEvents_bracketed hcontent

theorem current_eq_none {es : List Event} (hn : Nested es)
    (hp : (Progress.run settings {} es).result = .ok p) (h : takenIn es = false) :
    p.current = none := by
  have hheaded := (headed_of_run hn hp).takenIn
  rwa [h, eq_comm, Option.isSome_eq_false_iff, Option.isNone_iff_eq_none] at hheaded

/-- An element that its own tag closes does what its start and its end do, but for a group where
another one takes in registers. -/
theorem run_closed_apart (settings : Settings) (hp : tag.name = groupTag → p.current = none) :
    p.run settings [.empty tag] = p.run settings [.start tag, .close tag.name] := by
  simp only [Progress.run, bind_pure]
  by_cases hg : tag.name = groupTag
  · have hopened (g : RegisterGroup) : p.openGroup g = pure ⟨p.finished, some g⟩ := by
      rw [Progress.openGroup, hp hg]
    simp only [Progress.step, hg, if_true, hopened, hp hg, bind_assoc, pure_bind]
    rfl
  · have hend (q : Progress) : q.step settings (.close tag.name) = pure q :=
      step_eq_pure settings q rfl rfl fun h => hg (Event.close.inj h)
    simp only [hend, bind_pure]
    simp only [Progress.step, if_neg hg]

theorem isContent_start (hc : IsContent (tag.content ++ ['/']))
    (he : Event.ofContent (tag.content ++ ['/']) = .empty tag) : IsContent tag.content := by
  have hpasses : Passes tag.content := passes_of_concat (by decide) hc.passes
  have hhead := hc.head?_ne
  obtain ⟨-, hslash⟩ := ofContent_eq_empty_iff.mp he
  refine isContent_of_passes hpasses ?_
  cases hcontent : tag.content with
  | nil => simp
  | cons c rest => simpa [hcontent] using hhead

theorem isContent_end {name : List Char} (h : Paired name) : IsContent ('/' :: name) := by
  have hslash : Passes ['/'] := passes_char (by decide)
  exact isContent_of_passes (hslash.append h.passes) (by simp)

theorem ofContent_start (he : Event.ofContent (tag.content ++ ['/']) = .empty tag)
    (hlast : tag.content.getLast? ≠ some '/') : Event.ofContent tag.content = .start tag := by
  obtain ⟨-, hslash⟩ := ofContent_eq_empty_iff.mp he
  refine ofContent_eq_start_iff.mpr ⟨rfl, ?_, hlast⟩
  cases hcontent : tag.content with
  | nil => simp
  | cons c rest => simpa [hcontent] using hslash

theorem endName_name (tag : Tag) : endName tag.name = tag.name := by
  cases hname : tag.name with
  | nil => rfl
  | cons c rest =>
    have hspace := no_space_name tag
    rw [hname] at hspace
    have hend := endName_written (List.cons_ne_nil c rest) hspace isGap_nil
    rwa [List.append_nil] at hend

end

/-- An element that its own tag closes may be closed by an end tag as well, but for a group where
another one takes in registers, if the quotes in its name pair off. -/
theorem load_closed_apart {settings : Settings} {a : List Char} {tag : Tag} (ha : Outside a)
    (hc : IsContent (tag.content ++ ['/']))
    (he : Event.ofContent (tag.content ++ ['/']) = .empty tag)
    (hlast : tag.content.getLast? ≠ some '/') (hname : Paired tag.name)
    (hgroup : tag.name = groupTag → takenIn (events a).items = false) (b : List Char) :
    load settings (a ++ (bracketed (tag.content ++ ['/']) ++ b)) =
      load settings (a ++ (bracketed tag.content ++ bracketed ('/' :: tag.name) ++ b)) := by
  have hclose : Event.ofContent ('/' :: tag.name) = .close tag.name :=
    congrArg Event.close (endName_name tag)
  obtain ⟨hfault, hempty⟩ := tagEvents_bracketed hc
  obtain ⟨hfaultStart, hstart⟩ := tagEvents_bracketed (isContent_start hc he)
  obtain ⟨hfaultEnd, hend⟩ := tagEvents_bracketed (isContent_end hname)
  obtain ⟨hfaultBoth, hboth⟩ := tagEvents_append hfaultStart (bracketed ('/' :: tag.name))
  rw [he] at hempty
  rw [hstart, hend, hclose, ofContent_start he hlast, List.singleton_append] at hboth
  refine load_exchange ha ⟨hfault, hfaultBoth.trans hfaultEnd, fun opened => ⟨opened, ?_, ?_⟩⟩
    (fun p hp => ?_) b
  · rw [hempty]
    rfl
  · rw [hboth]
    exact foldlM_nest_close tag.name opened
  · rw [hempty, hboth]
    exact run_closed_apart settings fun hg => current_eq_none (nested_events a) hp (hgroup hg)

def noAddress : Tag := ⟨"tv_registers name='h' addr_sz='x'".toList⟩

def endedGroup : List Char := "<tv_registers name='g'></tv_registers>".toList

theorem load_closed_apart_noAddress :
    Outside endedGroup ∧ Paired noAddress.name ∧ takenIn (events endedGroup).items = false ∧
      (load {} (endedGroup ++
        (bracketed noAddress.content ++ bracketed ('/' :: noAddress.name) ++ []))).result =
          .ok [⟨"g", {}, []⟩, ⟨"h", { addressWidth := 0 }, []⟩] := by
  have houtside : Outside endedGroup := .inl (by decide +kernel)
  have hname : Paired noAddress.name := paired_of_all (by decide +kernel)
  have hended : takenIn (events endedGroup).items = false := by decide +kernel
  have hload : load {} _ = load {} _ := load_closed_apart houtside (by decide +kernel)
    (by decide +kernel) (by decide +kernel) hname (fun _ => hended) []
  refine ⟨houtside, hname, hended, ?_⟩
  rw [← hload]
  decide +kernel

/-- The quotes of the whole tag pair off, but those in its name do not: its end tag has no end. -/
theorem not_closed_apart :
    Event.ofContent "a\"b c\"/".toList = .empty ⟨"a\"b c\"".toList⟩ ∧
      Tag.name ⟨"a\"b c\"".toList⟩ = "a\"b".toList ∧
      (load {} "<a\"b c\"/>".toList).result = .ok [] ∧
      (load {} "<a\"b c\"></a\"b>".toList).result =
        .error (.markup (.construct .unclosedTag)) := by
  decide +kernel

end RegMap.Description
