import Intercept.Proofs.Broker.Refusal
import Intercept.Proofs.Endpoint.Negotiation
import Intercept.Proofs.Registry.Service

/-!
# Intercept.Proofs.Endpoint.Handshake

Who is registered, and what it takes.

```
Accepts name is L      L begins with a handshake under the name and a declaration of the interests
Awaits name L          L may still become like that
Welcomes name is b t   the turn t registers the name with these interests
Dismisses name f b t   the turn t ends the session with the fault f
Enrols .. is R         one turn of R registers the session with these interests
Rejects .. R           one turn of R, or the opening, ends the session
```

What a session has taken notice of says how far it has come (`Stage.met`, by
one turn, and `Dialogue.stage`, over all of them): it waits as long as that
may become acceptable, and is registered or over for good from the turn on
that settles it.
-/

namespace Intercept

variable {settings : SessionSettings} {name : String} {b : Broker} {R : List Encounter}
  {s : Session} {deadline : Nat} {x : Encounter} {m : Message}

/-! ## what is accepted -/

/-- What a session takes notice of begins with a handshake under its name and a declaration of these
interests. -/
def Accepts (name : String) (is : List Interest) (L : List (Option Message)) : Prop :=
  name ≠ "" ∧
    ∃ g d rest, L = some g :: some d :: rest ∧ g.greets name = true ∧ d.declared? = some is

/-- What a session takes notice of may become acceptable yet. -/
def Awaits (name : String) (L : List (Option Message)) : Prop :=
  name ≠ "" ∧ (L = [] ∨ ∃ g, L = [some g] ∧ g.greets name = true)

theorem Accepts.append {is : List Interest} {L : List (Option Message)} (h : Accepts name is L)
    (M : List (Option Message)) : Accepts name is (L ++ M) := by
  obtain ⟨hname, g, d, rest, rfl, hg, hd⟩ := h
  exact ⟨hname, g, d, rest ++ M, rfl, hg, hd⟩

/-- What is neither accepted nor awaited never will be. -/
theorem refused_append {L : List (Option Message)} (hawaits : ¬Awaits name L)
    (haccepts : ∀ is, ¬Accepts name is L) (M : List (Option Message)) :
    ¬Awaits name (L ++ M) ∧ ∀ is, ¬Accepts name is (L ++ M) := by
  cases L with
  | nil =>
      have hname : ¬name ≠ "" := fun hname => hawaits ⟨hname, .inl rfl⟩
      exact ⟨fun h => hname h.1, fun is h => hname h.1⟩
  | cons o L =>
      have hfirst : ∀ g, name ≠ "" → o = some g → g.greets name = true → L ≠ [] := by
        rintro g hname rfl hg rfl
        exact hawaits ⟨hname, .inr ⟨g, rfl, hg⟩⟩
      constructor
      · rintro ⟨hname, hnil | ⟨g, hg, hgreets⟩⟩
        · cases hnil
        · obtain ⟨ho, hrest⟩ := List.cons.inj hg
          exact hfirst g hname ho hgreets (List.append_eq_nil_iff.mp hrest).1
      · rintro is ⟨hname, g, d, rest, hL, hg, hd⟩
        obtain ⟨ho, hrest⟩ := List.cons.inj hL
        cases L with
        | nil => exact hfirst g hname ho hg rfl
        | cons o' L =>
            obtain ⟨rfl, _⟩ := List.cons.inj hrest
            exact haccepts is ⟨hname, g, d, L, by rw [ho], hg, hd⟩

/-! ## what becomes of a session -/

/-- The turn registers the name with these interests, and tells of it and of nothing else.  The
session goes on under the number behind the last one, which is now what the name stands for; other
names stand for what they did. -/
structure Welcomes (name : String) (is : List Interest) (b : Broker) (t : Turn) : Prop where
  session : t.session = ⟨name, .serving (b.registry.lastSession + 1) (.start b.now)⟩
  sent : t.sent = [.ofControl .connected]
  broker : t.broker = b.register name is b.settings.outboundQueue
  named : t.broker.registry.get? name = some ⟨name, b.registry.lastSession + 1, is⟩
  others : ∀ ext ≠ name, t.broker.registry.get? ext = b.registry.get? ext

/-- The turn ends the session.  It sends one error message, which tells of the fault, and a close;
one more rejection is counted under the code of the fault, and nothing else differs. -/
structure Dismisses (name : String) (fault : Fault) (b : Broker) (t : Turn) : Prop where
  session : t.session = ⟨name, .over⟩
  sent : t.sent = [.ofControl (.error fault.code.name fault.message), .close]
  counted : Broker.OneMore .handshakeRejections ("code", fault.code.name) b t.broker

/-- The turn does nothing. -/
def Encounter.IsIdle (settings : SessionSettings) (x : Encounter) : Prop :=
  x.turn settings = ⟨x.session, x.broker, []⟩

/-- One turn registers the session with these interests, under the number of its registration. Until
then every turn is harmless, and from then on nobody is registered. -/
def Enrols (settings : SessionSettings) (name : String) (is : List Interest)
    (R : List Encounter) : Prop :=
  ∃ pre x post, R = pre ++ x :: post ∧ (∀ y ∈ pre, y.Harmless settings) ∧ x.session.name = name ∧
    Welcomes name is x.broker (x.turn settings) ∧ x.Registers settings ∧
    ∀ y ∈ post, ¬y.Registers settings

/-- One turn for which there are grounds, or the opening of a connection without a name, ends the
session with an error that is counted, and a close. Until then every turn is harmless, and from then
on none does anything. -/
def Rejects (settings : SessionSettings) (name : String) (b : Broker) (R : List Encounter) : Prop :=
  (name = "" ∧ Dismisses name (.badRequest "missing extension name") b
      (Session.start name settings b) ∧ ∀ y ∈ R, y.IsIdle settings) ∨
  ∃ pre x post fault, R = pre ++ x :: post ∧ (∀ y ∈ pre, y.Harmless settings) ∧
    x.Grounds fault ∧ Dismisses name fault x.broker (x.turn settings) ∧
    ∀ y ∈ post, y.IsIdle settings

/-- How far a session has come, and that what it took notice of says so. -/
inductive Stage (settings : SessionSettings) (name : String) (b : Broker) (deadline : Nat)
    (R : List Encounter) (s : Session) : Prop where
  | greeting : name ≠ "" → s = ⟨name, .greeting deadline⟩ → heeded deadline R = [] →
      (∀ y ∈ R, y.Harmless settings) → Stage settings name b deadline R s
  | declaring (g : Message) : name ≠ "" → s = ⟨name, .declaring deadline⟩ →
      heeded deadline R = [some g] → g.greets name = true → (∀ y ∈ R, y.Harmless settings) →
      Stage settings name b deadline R s
  | enrolled (is : List Interest) : Accepts name is (heeded deadline R) →
      Enrols settings name is R → s.IsPast → Stage settings name b deadline R s
  | rejected : ¬Awaits name (heeded deadline R) → (∀ is, ¬Accepts name is (heeded deadline R)) →
      Rejects settings name b R → s.phase = .over → Stage settings name b deadline R s

theorem harmless_concat (h : ∀ y ∈ R, y.Harmless settings) (hx : x.Harmless settings) :
    ∀ y ∈ R ++ [x], y.Harmless settings :=
  List.forall_mem_append.mpr ⟨h, List.forall_mem_singleton.mpr hx⟩

/-- Enrolling registers the name, tells of it, and does nothing else. -/
theorem welcomes_enrol (s : Session) (b : Broker) (is : List Interest) :
    Welcomes s.name is b (s.enrol b is) := by
  have hregistry : (b.register s.name is b.settings.outboundQueue).registry =
      b.registry.register s.name is := b.registry_register _ _ _
  refine ⟨?_, rfl, rfl, ?_, fun ext hext => ?_⟩
  · unfold Session.enrol
    dsimp only
    rw [hregistry, Registry.lastSession_register, Broker.now_register]
  · unfold Session.enrol
    dsimp only
    rw [hregistry, Registry.get?_register_self]
  · unfold Session.enrol
    dsimp only
    rw [hregistry, Registry.get?_register_of_ne _ is hext]

/-- Rejecting ends the session with one message, and counts once. -/
theorem dismisses_reject (s : Session) (b : Broker) (fault : Fault) :
    Dismisses s.name fault b (s.reject b fault) :=
  ⟨rfl, rfl, Broker.oneMore_count b _ _⟩

/-- A session that waits is turned away. -/
theorem Stage.refused (h : ∀ y ∈ R, y.Harmless settings) (hname : x.session.name = name)
    (hawaits : ¬Awaits name (heeded deadline (R ++ [x])))
    (haccepts : ∀ is, ¬Accepts name is (heeded deadline (R ++ [x]))) {fault : Fault}
    (hgrounds : x.Grounds fault) (hx : x.turn settings = x.session.reject x.broker fault) :
    Stage settings name b deadline (R ++ [x]) (x.turn settings).session := by
  have hdismisses : Dismisses name fault x.broker (x.turn settings) := by
    rw [hx, ← hname]
    exact dismisses_reject x.session x.broker fault
  refine .rejected hawaits haccepts
    (.inr ⟨R, x, [], fault, rfl, h, hgrounds, hdismisses, List.forall_mem_nil _⟩) ?_
  rw [hdismisses.session]

theorem Enrols.concat {is : List Interest} (h : Enrols settings name is R)
    (hx : ¬x.Registers settings) : Enrols settings name is (R ++ [x]) := by
  obtain ⟨pre, y, post, rfl, hpre, hname, hwelcomes, hregisters, hpost⟩ := h
  exact ⟨pre, y, post ++ [x], by simp, hpre, hname, hwelcomes, hregisters,
    List.forall_mem_append.mpr ⟨hpost, List.forall_mem_singleton.mpr hx⟩⟩

/-- A session that is over stays so, whatever it meets with. -/
theorem Rejects.concat (h : Rejects settings name b R) (hx : x.IsIdle settings) :
    Rejects settings name b (R ++ [x]) := by
  have hlast : ∀ L : List Encounter, (∀ y ∈ L, y.IsIdle settings) →
      ∀ y ∈ L ++ [x], y.IsIdle settings := fun L hL =>
    List.forall_mem_append.mpr ⟨hL, List.forall_mem_singleton.mpr hx⟩
  obtain ⟨hname, hstart, hidle⟩ | ⟨pre, y, post, fault, rfl, hpre, hgrounds, hy, hpost⟩ := h
  · exact .inl ⟨hname, hstart, hlast R hidle⟩
  · exact .inr ⟨pre, y, post ++ [x], fault, by simp, hpre, hgrounds, hy, hlast post hpost⟩

theorem Welcomes.registers {is : List Interest}
    (h : Welcomes name is x.broker (x.turn settings)) : x.Registers settings := by
  unfold Encounter.Registers
  rw [h.broker, Broker.registry_register, Registry.lastSession_register]
  omega

/-- A turn of a session that waits for a handshake. -/
theorem Stage.met_greeting (hname : name ≠ "") (hs : x.session = ⟨name, .greeting deadline⟩)
    (hheeded : heeded deadline R = []) (hharmless : ∀ y ∈ R, y.Harmless settings) :
    Stage settings name b deadline (R ++ [x]) (x.turn settings).session := by
  have hwaits := waits_greeting settings name deadline
  have hsname : x.session.name = name := by rw [hs]
  have hnow : heeded deadline (R ++ [x]) = (x.heeded? deadline).toList := by
    rw [heeded_concat, hheeded, List.nil_append]
  rw [← hs] at hwaits
  cases hwaits.waited with
  | skipped hnone hx hsame =>
      rw [hnone] at hnow
      exact .greeting hname (hsame.trans hs) hnow (harmless_concat hharmless hx)
  | taken m c hstimulus hsome hgood hm hturn =>
      rw [hsome] at hnow
      rw [greet_of_greets x.session x.broker deadline hm (by rw [hsname]; exact hgood)] at hturn
      have hx : x.Harmless settings := by
        constructor
        · rw [hturn]
        · rw [hturn, Encounter.answers, hstimulus]
      refine .declaring m hname ?_ hnow hgood (harmless_concat hharmless hx)
      rw [hturn, hs]
  | refused o fault hsome hbad hgrounds hturn =>
      rw [hsome] at hnow
      refine Stage.refused hharmless hsname ?_ ?_ hgrounds hturn
      · rw [hnow]
        rintro ⟨_, hnil | ⟨g, hg, hgreets⟩⟩
        · cases hnil
        · exact hbad g (List.cons.inj hg).1 hgreets
      · rw [hnow]
        rintro is ⟨_, g, d, rest, hL, _⟩
        cases (List.cons.inj hL).2

/-- A turn of a session that waits for its interests. -/
theorem Stage.met_declaring {g : Message} (hname : name ≠ "")
    (hs : x.session = ⟨name, .declaring deadline⟩) (hheeded : heeded deadline R = [some g])
    (hg : g.greets name = true) (hharmless : ∀ y ∈ R, y.Harmless settings) :
    Stage settings name b deadline (R ++ [x]) (x.turn settings).session := by
  have hwaits := waits_declaring settings name deadline
  have hsname : x.session.name = name := by rw [hs]
  have hnow : heeded deadline (R ++ [x]) = some g :: (x.heeded? deadline).toList := by
    rw [heeded_concat, hheeded]
    rfl
  rw [← hs] at hwaits
  cases hwaits.waited with
  | skipped hnone hx hsame =>
      rw [hnone] at hnow
      exact .declaring g hname (hsame.trans hs) hnow hg (harmless_concat hharmless hx)
  | taken m c hstimulus hsome hgood hm hturn =>
      rw [hsome] at hnow
      obtain ⟨is, hdeclared⟩ := Option.isSome_iff_exists.mp hgood
      rw [declare_of_declared x.session x.broker hm hdeclared] at hturn
      have hwelcomes : Welcomes name is x.broker (x.turn settings) := by
        rw [hturn, ← hsname]
        exact welcomes_enrol x.session x.broker is
      refine .enrolled is ?_ ?_ ?_
      · rw [hnow]
        exact ⟨hname, g, m, [], rfl, hg, hdeclared⟩
      · exact ⟨R, x, [], rfl, hharmless, hsname, hwelcomes, hwelcomes.registers,
          List.forall_mem_nil _⟩
      · rw [hwelcomes.session]
        exact .inr ⟨_, _, rfl⟩
  | refused o fault hsome hbad hgrounds hturn =>
      rw [hsome] at hnow
      refine Stage.refused hharmless hsname ?_ ?_ hgrounds hturn
      · rw [hnow]
        rintro ⟨_, hnil | ⟨g, hg, _⟩⟩
        · cases hnil
        · cases (List.cons.inj hg).2
      · rw [hnow]
        rintro is ⟨_, g, d, rest, hL, _, hd⟩
        refine hbad d ?_ (by rw [hd]; rfl)
        exact (List.cons.inj (List.cons.inj hL).2).1

/-- **What one turn does to a session** goes by what the session took notice of. -/
theorem Stage.met (h : Stage settings name b deadline R x.session) :
    Stage settings name b deadline (R ++ [x]) (x.turn settings).session := by
  cases h with
  | greeting hname hs hheeded hharmless => exact Stage.met_greeting hname hs hheeded hharmless
  | declaring g hname hs hheeded hg hharmless =>
      exact Stage.met_declaring hname hs hheeded hg hharmless
  | enrolled is haccepts henrols hpast =>
      have hx : Past x.broker (x.turn settings) := past_turn hpast
      refine .enrolled is ?_ (henrols.concat fun hr => hr hx.lastSession) hx.session
      rw [heeded_concat]
      exact haccepts.append _
  | rejected hawaits haccepts hrejects hover =>
      have hidle : x.IsIdle settings := turn_of_over hover
      have hrefused := refused_append hawaits haccepts (x.heeded? deadline).toList
      rw [← heeded_concat] at hrefused
      refine .rejected hrefused.1 hrefused.2 (hrejects.concat hidle) ?_
      rw [hidle]
      exact hover

/-- What a session has taken notice of says how far it has come. -/
theorem Dialogue.stage (h : Dialogue settings name b R s) :
    Stage settings name b (b.now + settings.handshakeTimeout) R s := by
  induction h with
  | opened =>
      unfold Session.start
      dsimp only
      split
      · next hname =>
          have hstart : Session.start name settings b =
              Session.reject ⟨name, .over⟩ b (.badRequest "missing extension name") := by
            unfold Session.start
            exact if_pos hname
          have hdismisses : Dismisses name (.badRequest "missing extension name") b
              (Session.start name settings b) := by
            rw [hstart]
            exact dismisses_reject ⟨name, .over⟩ b _
          exact .rejected (fun h => h.1 hname) (fun is h => h.1 hname)
            (.inl ⟨hname, hdismisses, List.forall_mem_nil _⟩) rfl
      · next hname => exact .greeting hname rfl rfl (List.forall_mem_nil _)
  | met b' stimulus _ ih => exact Stage.met (x := ⟨_, b', stimulus⟩) ih

/-! ## in time -/

/-- The clock does not go back, and at the deadline the timers are looked at before anything else
comes. -/
structure Punctual (deadline : Nat) (R : List Encounter) : Prop where
  clock : R.Pairwise (·.now ≤ ·.now)
  strikes : ∀ pre x post m, R = pre ++ x :: post → x.stimulus = .hears m → deadline ≤ x.now →
    ∃ y ∈ pre, y.stimulus = .ticks ∧ deadline ≤ y.now

/-- What comes before the deadline. -/
def early (deadline : Nat) (R : List Encounter) : List Encounter := R.filter (·.now < deadline)

/-- A session that is in time was so before. -/
theorem Punctual.of_concat (h : Punctual deadline (R ++ [x])) : Punctual deadline R := by
  refine ⟨(List.pairwise_append.mp h.clock).1, fun pre y post m hR hy hlate => ?_⟩
  exact h.strikes pre y (post ++ [x]) m (by rw [hR]; simp) hy hlate

theorem stimulus_of_heeded (h : x.heeded? deadline = some (some m)) :
    x.stimulus = .hears (some m) := by
  unfold Encounter.heeded? at h
  split at h
  · cases h
  · next heq =>
      split at h
      · cases h
      · cases h
        exact heq
  · split at h <;> cases h
  · cases h

/-- Of what comes after the deadline, the end of the time is the first that is taken notice of. -/
theorem Punctual.heeded_eq (h : Punctual deadline R) :
    ∃ late, heeded deadline R = heeded deadline (early deadline R) ++ late ∧
      (late = [] ∨ late.head? = some none) ∧
      ((∃ y ∈ R, y.stimulus = .ticks ∧ deadline ≤ y.now) → late ≠ []) := by
  induction R using List.reverseRecOn with
  | nil => exact ⟨[], rfl, .inl rfl, fun ⟨_, hy, _⟩ => by cases hy⟩
  | append_singleton R x ih =>
      obtain ⟨late, hR, hhead, hstruck⟩ := ih h.of_concat
      by_cases hx : x.now < deadline
      · -- then so has everything been
        have hall : early deadline (R ++ [x]) = R ++ [x] := by
          refine List.filter_eq_self.mpr fun y hy => decide_eq_true ?_
          cases List.mem_append.mp hy with
          | inl hold =>
              exact Nat.lt_of_le_of_lt
                ((List.pairwise_append.mp h.clock).2.2 y hold x List.mem_cons_self) hx
          | inr hlast => rw [List.mem_singleton.mp hlast]; exact hx
        refine ⟨[], by rw [hall, List.append_nil], .inl rfl, ?_⟩
        rintro ⟨y, hy, _, hlate⟩
        rw [← hall] at hy
        have hearly : y.now < deadline := by simpa using (List.mem_filter.mp hy).2
        omega
      · have hall : early deadline (R ++ [x]) = early deadline R := by
          simp [early, List.filter_append, hx]
        refine ⟨late ++ (x.heeded? deadline).toList, ?_, ?_, ?_⟩
        · rw [heeded_concat, hR, hall, List.append_assoc]
        · obtain rfl | hhead := hhead
          · cases hh : x.heeded? deadline with
            | none => exact .inl rfl
            | some o =>
                cases o with
                | none => exact .inr rfl
                | some m =>
                    have hhears := stimulus_of_heeded hh
                    exact absurd rfl (hstruck
                      (h.strikes R x [] (some m) rfl hhears (Nat.le_of_not_lt hx)))
          · right
            rw [List.head?_append, hhead]
            rfl
        · rintro ⟨y, hy, hticks, hlate⟩
          cases List.mem_append.mp hy with
          | inl hold => exact List.append_ne_nil_of_left_ne_nil (hstruck ⟨y, hold, hticks, hlate⟩) _
          | inr hlast =>
              obtain rfl := List.mem_singleton.mp hlast
              have hheeded : y.heeded? deadline = some none := by
                simp [Encounter.heeded?, hticks, hlate]
              simp [hheeded]

/-- As long as the timers are punctual, all that counts comes before the deadline. -/
theorem Punctual.accepts_iff (h : Punctual deadline R) (is : List Interest) :
    Accepts name is (heeded deadline R) ↔
      Accepts name is (heeded deadline (early deadline R)) := by
  obtain ⟨late, hR, hhead, -⟩ := h.heeded_eq
  rw [hR]
  refine ⟨?_, fun haccepts => haccepts.append late⟩
  rintro ⟨hname, g, d, rest, hL, hg, hd⟩
  obtain rfl | hhead := hhead
  · rw [List.append_nil] at hL
    exact ⟨hname, g, d, rest, hL, hg, hd⟩
  · cases late with
    | nil => cases hhead
    | cons o late =>
        cases hhead
        match hearly : heeded deadline (early deadline R) with
        | [] => simp [hearly] at hL
        | [o] => simp [hearly] at hL
        | o :: o' :: L =>
            rw [hearly] at hL
            obtain ⟨rfl, hrest⟩ := List.cons.inj hL
            obtain ⟨rfl, _⟩ := List.cons.inj hrest
            exact ⟨hname, g, d, L, rfl, hg, hd⟩

/-! ## exactly who is registered -/

/-- No two declarations are accepted. -/
theorem Accepts.unique {is is' : List Interest} {L : List (Option Message)}
    (h : Accepts name is L) (h' : Accepts name is' L) : is = is' := by
  obtain ⟨_, g, d, rest, rfl, _, hd⟩ := h
  obtain ⟨_, g', d', rest', hL, _, hd'⟩ := h'
  obtain ⟨_, hL⟩ := List.cons.inj hL
  obtain ⟨hsame, _⟩ := List.cons.inj hL
  cases hsame
  exact Option.some.inj (hd.symm.trans hd')

/-- What is accepted is not waited for. -/
theorem Accepts.not_awaits {is : List Interest} {L : List (Option Message)}
    (h : Accepts name is L) : ¬Awaits name L := by
  obtain ⟨_, g, d, rest, rfl, _, _⟩ := h
  rintro ⟨_, hnil | ⟨g', hg', _⟩⟩
  · cases hnil
  · cases (List.cons.inj hg').2

theorem Encounter.IsIdle.not_registers (h : x.IsIdle settings) : ¬x.Registers settings := by
  unfold Encounter.IsIdle at h
  unfold Encounter.Registers
  rw [h]
  exact fun hne => hne rfl

/-- Who is dismissed is not registered in the same turn. -/
theorem Dismisses.not_registers {fault : Fault}
    (h : Dismisses name fault x.broker (x.turn settings)) : ¬x.Registers settings := by
  unfold Encounter.Registers
  rw [h.counted.rest]
  exact fun hne => hne rfl

/-- A session that is rejected never registers its name. -/
theorem Rejects.not_registers (h : Rejects settings name b R) : ∀ y ∈ R, ¬y.Registers settings := by
  obtain ⟨_, _, hidle⟩ | ⟨pre, x, post, fault, rfl, hpre, _, hx, hpost⟩ := h
  · exact fun y hy => (hidle y hy).not_registers
  · refine List.forall_mem_append.mpr ⟨fun y hy => (hpre y hy).not_registers, ?_⟩
    exact List.forall_mem_cons.mpr ⟨hx.not_registers, fun y hy => (hpost y hy).not_registers⟩

/-- A session that has taken notice of what is accepted has been registered. -/
theorem Stage.enrols {is : List Interest} (h : Stage settings name b deadline R s)
    (haccepts : Accepts name is (heeded deadline R)) : Enrols settings name is R := by
  cases h with
  | greeting hname _ hheeded => exact absurd ⟨hname, .inl hheeded⟩ haccepts.not_awaits
  | declaring g hname _ hheeded hg =>
      exact absurd ⟨hname, .inr ⟨g, hheeded, hg⟩⟩ haccepts.not_awaits
  | enrolled is' haccepts' henrols => rwa [haccepts.unique haccepts']
  | rejected _ hnot => exact absurd haccepts (hnot is)

/-- Whoever is registered has been accepted. -/
theorem Stage.exists_registers_iff (h : Stage settings name b deadline R s) :
    (∃ x ∈ R, x.Registers settings) ↔ ∃ is, Accepts name is (heeded deadline R) := by
  constructor
  · rintro ⟨x, hx, hregisters⟩
    cases h with
    | greeting _ _ _ hharmless => exact absurd hregisters (hharmless x hx).not_registers
    | declaring _ _ _ _ _ hharmless => exact absurd hregisters (hharmless x hx).not_registers
    | enrolled is haccepts => exact ⟨is, haccepts⟩
    | rejected _ _ hrejects => exact absurd hregisters (hrejects.not_registers x hx)
  · rintro ⟨is, haccepts⟩
    obtain ⟨pre, x, post, rfl, _, _, _, hregisters, _⟩ := h.enrols haccepts
    exact ⟨x, List.mem_append_right pre List.mem_cons_self, hregisters⟩

/-- **Who is registered, and who is turned away.**  Whatever a connection meets with, its extension
is registered if and only if the connection has a name and what the session took notice of (messages
other than frames, pings and pongs, the end of the connection, the end of the time) begins with a
handshake under that name and a declaration whose interests compile; if the timers are punctual, it
is the messages from before the deadline that count.  Then one turn registers it with these
interests, once, and every turn before was harmless: it left the broker alone and sent the answer to
a frame, a ping or the handshake, if anything.  As long as more may come every turn is harmless.  In
every other case the session is over, and one turn, or the opening, has ended it: it sent one error
message, which says why, and a close, counted one rejection, and changed nothing else. -/
theorem Dialogue.registers_iff (h : Dialogue settings name b R s) :
    let deadline := b.now + settings.handshakeTimeout
    let heard := heeded deadline R
    ((∃ x ∈ R, x.Registers settings) ↔ ∃ is, Accepts name is heard) ∧
    (Punctual deadline R → ((∃ x ∈ R, x.Registers settings) ↔
      ∃ is, Accepts name is (heeded deadline (early deadline R)))) ∧
    (∀ is, Accepts name is heard → Enrols settings name is R) ∧
    (Awaits name heard → (∀ x ∈ R, x.Harmless settings) ∧
      (s.phase = .greeting deadline ∨ s.phase = .declaring deadline)) ∧
    (¬Awaits name heard → (∀ is, ¬Accepts name is heard) →
      Rejects settings name b R ∧ s.phase = .over) ∧
    (name ≠ "" → Session.start name settings b = ⟨⟨name, .greeting deadline⟩, b, []⟩) := by
  intro deadline heard
  have hstage : Stage settings name b deadline R s := h.stage
  refine ⟨hstage.exists_registers_iff, fun hpunctual => ?_, fun is => hstage.enrols, ?_, ?_,
    fun hname => if_neg hname⟩
  · rw [hstage.exists_registers_iff]
    exact exists_congr fun is => hpunctual.accepts_iff is
  · intro hawaits
    cases hstage with
    | greeting _ hs _ hharmless => exact ⟨hharmless, .inl (by rw [hs])⟩
    | declaring _ _ hs _ _ hharmless => exact ⟨hharmless, .inr (by rw [hs])⟩
    | enrolled _ haccepts => exact absurd hawaits haccepts.not_awaits
    | rejected hnot => exact absurd hawaits hnot
  · intro hawaits haccepts
    cases hstage with
    | greeting hname _ hheeded => exact absurd ⟨hname, .inl hheeded⟩ hawaits
    | declaring g hname _ hheeded hg => exact absurd ⟨hname, .inr ⟨g, hheeded, hg⟩⟩ hawaits
    | enrolled is haccepts' => exact absurd haccepts' (haccepts is)
    | rejected _ _ hrejects hover => exact ⟨hrejects, hover⟩

/-- A frame, a ping and a pong come between the messages that count, and the last of these comes one
millisecond before the deadline.  On another connection a ping and a handshake of another version
come, and then a frame for which there is no session any more. -/
theorem registers_iff_past_noise :
    (∃ R s, Dialogue {} "x" (.new {}) R s ∧ Punctual 5000 R ∧ (∃ x ∈ R, x.Registers {}) ∧
      Enrols {} "x" [{ id := 1, kind := .net .track }] R) ∧
    ∃ R s, Dialogue {} "x" (.new {}) R s ∧ Rejects {} "x" (.new {}) R ∧ s.phase = .over ∧
      R.map (fun x => (x.turn {}).sent) = [[.pong [1]],
        [.ofControl (.error "UNSUPPORTED_VERSION" "unsupported protocol version"), .close], []] ∧
      R.map (fun x => (x.turn {}).broker.metrics.count .handshakeRejections
        [("code", "UNSUPPORTED_VERSION")]) = [0, 1, 1] := by
  let b : Broker := .new {}
  let frame : Frame := { op := .pass, direction := .unspecified, packetId := 1, interestId := 1
                         hitCount := 0, packetFlags := 0, packet := [] }
  let greeting : Message := .text "[\"handshake\",1,\"x\"]"
  let old : Message := .text "[\"handshake\",0,\"x\"]"
  let wishes : Message := .text "[\"capability_response\",[[1,\x7b\"net\":\"TRACK\"\x7d]]]"
  constructor
  · let R := (Session.start "x" {} b).session.encounters {} [
      (b, .hears (some (.ofFrame frame))), (b, .hears (some (.ping [1]))),
      (b, .hears (some greeting)), (b.later 4000, .ticks), (b.later 4000, .hears (some (.pong []))),
      (b.later 4999, .hears (some wishes))]
    have h : Dialogue {} "x" b R _ := dialogue_of_script {} "x" b _
    have hheeded : heeded 5000 R = [some greeting, some wishes] := by decide +kernel
    have hgreets : greeting.greets "x" = true := by decide +kernel
    have hdeclared : wishes.declared? = some [{ id := 1, kind := .net .track }] := by
      decide +kernel
    have haccepts : Accepts "x" [{ id := 1, kind := .net .track }] (heeded 5000 R) :=
      ⟨by decide, greeting, wishes, [], hheeded, hgreets, hdeclared⟩
    have hearly : ∀ x ∈ R, x.now < 5000 := by decide +kernel
    obtain ⟨hregisters, _, henrols, _⟩ := h.registers_iff
    refine ⟨R, _, h, ⟨by decide +kernel, fun pre x post m hR _ hlate => ?_⟩,
      hregisters.mpr ⟨_, haccepts⟩, henrols _ haccepts⟩
    have hx : x.now < 5000 := hearly x (by rw [hR]; simp)
    omega
  · let rejected : Broker := b.count .handshakeRejections [("code", "UNSUPPORTED_VERSION")]
    let R := (Session.start "x" {} b).session.encounters {} [
      (b, .hears (some (.ping [1]))), (b, .hears (some old)),
      (rejected, .hears (some (.ofFrame frame)))]
    have h : Dialogue {} "x" b R _ := dialogue_of_script {} "x" b _
    have hheeded : heeded 5000 R = [some old] := by decide +kernel
    have hgreets : old.greets "x" = false := by decide +kernel
    have hawaits : ¬Awaits "x" (heeded 5000 R) := by
      rw [hheeded]
      rintro ⟨_, hnil | ⟨g, hg, hgood⟩⟩
      · cases hnil
      · cases (List.cons.inj hg).1
        rw [hgreets] at hgood
        cases hgood
    have haccepts : ∀ is, ¬Accepts "x" is (heeded 5000 R) := by
      rw [hheeded]
      rintro is ⟨_, g, d, rest, hL, _⟩
      cases (List.cons.inj hL).2
    obtain ⟨_, _, _, _, hrejects, _⟩ := h.registers_iff
    obtain ⟨hrejects, hover⟩ := hrejects hawaits haccepts
    exact ⟨R, _, h, hrejects, hover, by decide +kernel, by decide +kernel⟩

end Intercept
