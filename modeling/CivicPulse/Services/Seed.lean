/-
  CivicPulse.Services.Seed — the demo complaints and the program that inserts them
  (`app/seed.py`).

  A seed's id is a hash of its text, so every seeder inserts the same ids. The classifier is
  the keyword one; the times lie some hours before now.
  - `seeds_fit`: a seed's fields satisfy the table's checks.
  - `complaint_ok`: every seed has its row, and the row satisfies them too.
-/

import CivicPulse.Services.Complaints
import CivicPulse.Triage.Summary

namespace CivicPulse

open Text Lang

structure Seed where
  text : Str
  location : Str
  contact : Option Str
  status : Status
  hoursAgo : Int

/-- `uuid.UUID("6f1c1d2e-8a51-4c3e-9b1a-3c1f0c9e2b7a")`. -/
def SEED_NAMESPACE : Uuid := 0x6f1c1d2e8a514c3e9b1a3c1f0c9e2b7a

def SEEDS : List Seed :=
  [⟨"Burst water main flooding Street 12 since fajr, water entering ground floors of three houses.".toList,
      "G-11/3 Street 12, Islamabad".toList, some "0300-1234567".toList, .open_, 2⟩,
    ⟨"Pani nahi aa raha for 3 days in our block, tanker mafia charging Rs 4000 per tanker.".toList,
      "Block C, North Nazimabad, Karachi".toList, none, .inProgress, 30⟩,
    ⟨"Bijli gone since 9 pm, transformer made loud blast and sparking near the masjid.".toList,
      "Mohalla Qasimabad, Hyderabad".toList, some "0333-9876543".toList, .open_, 5⟩,
    ⟨"Gutter overflowing in front of school gate, children walking through sewage every morning.".toList,
      "Samanabad main road, Lahore".toList, none, .open_, 8⟩,
    ⟨"Huge pothole on the sarak near Chandni Chowk, two bikes already fell last night.".toList,
      "Murree Road, Chandni Chowk, Rawalpindi".toList, some "0312-5550001".toList, .inProgress, 50⟩,
    ⟨"Streetlight outside house no 45 is not working for two weeks, street is very dark at night.".toList,
      "F-7/2 Street 21, Islamabad".toList, none, .resolved, 300⟩,
    ⟨"Kachra not picked up for one week, smell is unbearable and mosquitoes everywhere.".toList,
      "Gulshan-e-Iqbal Block 13, Karachi".toList, none, .open_, 20⟩,
    ⟨"Load shedding 10 hours daily in our area even though schedule says 4 hours, please check.".toList,
      "Satellite Town, Gujranwala".toList, some "0301-2223334".toList, .open_, 72⟩,
    ⟨"Water pipe leaking near the park since Eid, clean water wasting on road all day.".toList,
      "Model Town Block H, Lahore".toList, none, .resolved, 500⟩,
    ⟨"Open manhole without cover on main street, very dangerous for children and elderly people.".toList,
      "Saddar, Peshawar".toList, some "0345-1112223".toList, .inProgress, 12⟩,
    ⟨"Street light pole bent after storm and wires hanging low, please remove before accident.".toList,
      "Bahria Town Phase 4, Rawalpindi".toList, none, .open_, 16⟩,
    ⟨"Sewer line choked, dirty water coming back into our washrooms, whole lane affected.".toList,
      "Shah Faisal Colony, Karachi".toList, some "0321-4445556".toList, .open_, 6⟩,
    ⟨"Road construction left half finished for two months, dust everywhere and traffic jam daily.".toList,
      "Canal Road near Thokar, Lahore".toList, none, .rejected, 900⟩,
    ⟨"Voltage fluctuation daily in evening, fridge and fan motors burnt in many houses.".toList,
      "Gulberg III, Lahore".toList, some "0302-7778889".toList, .open_, 40⟩,
    ⟨"Garbage dump near the nala is on fire, black smoke entering houses, people coughing.".toList,
      "Korangi Crossing, Karachi".toList, none, .inProgress, 3⟩,
    ⟨"Tap water is coming yellow and smelly since yesterday, people falling ill in our street.".toList,
      "Wahdat Colony, Faisalabad".toList, some "0306-3334445".toList, .open_, 10⟩,
    ⟨"Suggestion: please paint the faded zebra crossing near the girls college whenever possible.".toList,
      "Jail Road, Lahore".toList, none, .open_, 120⟩,
    ⟨"Speed breaker too high near petrol pump, car bottoms getting damaged, request to fix it.".toList,
      "University Road, Peshawar".toList, none, .resolved, 700⟩,
    ⟨"Streetlights of whole block switched on in daytime and off at night, timer seems faulty.".toList,
      "DHA Phase 2, Karachi".toList, some "0315-6667778".toList, .open_, 26⟩,
    ⟨"Electric meter reading wrong, bill came Rs 45000 for a two room house, need inspection.".toList,
      "Johar Town Block R, Lahore".toList, some "0308-1231231".toList, .inProgress, 96⟩,
    ⟨"Drain water standing in the street for 5 days after rain, dengue mosquitoes breeding.".toList,
      "Shadman Colony, Multan".toList, none, .open_, 60⟩,
    ⟨"Main water supply line burst near the chowk, road flooded and shops closed.".toList,
      "Liaquat Bazaar, Quetta".toList, some "0331-9090909".toList, .open_, 1⟩,
    ⟨"Cracks in the bridge railing on the canal, one portion already fell into water.".toList,
      "Mall Road bridge, Lahore".toList, none, .inProgress, 44⟩,
    ⟨"Live wire fell on the road after the storm, current in the puddle, danger for everyone.".toList,
      "Hayatabad Phase 3, Peshawar".toList, some "0334-2020202".toList, .open_, 4⟩,
    ⟨"Park benches are broken and swings are rusty, kids cannot play, minor repair needed.".toList,
      "F-9 Park, Islamabad".toList, none, .open_, 200⟩,
    ⟨"Sanitation staff not coming to our mohalla, people throwing trash on the empty plot.".toList,
      "Lyari, Karachi".toList, none, .rejected, 400⟩,
    ⟨"No water for 5 days in the flats, old people carrying buckets from ground floor.".toList,
      "Clifton Block 2, Karachi".toList, some "0322-5656565".toList, .inProgress, 90⟩,
    ⟨"Transformer oil leaking and it is making buzzing noise, WAPDA line staff not responding.".toList,
      "Madina Town, Faisalabad".toList, none, .open_, 18⟩,
    ⟨"Pothole filled with water near the hospital gate, ambulances slowing down, urgent please.".toList,
      "Jinnah Hospital road, Lahore".toList, some "0304-8080808".toList, .open_, 7⟩,
    ⟨"Street light near the bus stop is flickering all night, women feel unsafe waiting there.".toList,
      "I-8 Markaz, Islamabad".toList, none, .resolved, 350⟩,
    ⟨"Stray dogs in large numbers near the school, children are scared to walk to class.".toList,
      "Cantt area, Sialkot".toList, none, .open_, 36⟩,
    ⟨"Noise from marriage hall generator till 2 am every night, residents cannot sleep.".toList,
      "Allama Iqbal Town, Lahore".toList, some "0311-4343434".toList, .open_, 55⟩,
    ⟨"Sewage mixing with drinking water line, whole street getting stomach problems.".toList,
      "Orangi Town Sector 5, Karachi".toList, some "0317-2121212".toList, .inProgress, 14⟩,
    ⟨"Footpath tiles broken and uneven in front of the market, an old man fell yesterday.".toList,
      "Blue Area, Islamabad".toList, none, .open_, 22⟩]

namespace Seed

-- `uuid.uuid5`
variable (uuid5 : Uuid → Str → Uuid)

def seedId (text : Str) : Uuid := uuid5 SEED_NAMESPACE text

/-- `timedelta(hours=n)`, in microseconds. -/
def hours (n : Int) : Int := n * 3600000000

section

variable [Platform]

/-- The row of the seed with number `i`. -/
def complaint (now : Int) (seed : Seed) (i : Nat) : Except Exc Complaint := do
  let result ← Rules.triage seed.text seed.location
  let created := now - hours seed.hoursAgo
  return ⟨seedId uuid5 seed.text, seed.text, seed.location, seed.contact, result.category, result.priority, seed.status,
    some result.summary, "rules".toList, 1 + i % 3, created, created⟩

def buildSeedComplaints (now : Int) : Except Exc (List Complaint) :=
  SEEDS.zipIdx.mapM fun s => complaint uuid5 now s.1 s.2

/-- The number of complaints that were inserted. -/
def runSeed : Code Nat :=
  .op .utcnow fun (now : Int) => do
    let rows ← ofExcept (buildSeedComplaints uuid5 now)
    let inserted ← rows.foldlM (fun n c => do return n + (← Repository.addIfAbsent c).toNat) 0
    Repository.commit
    return inserted

/-- `main`. -/
def main : Code Nat :=
  Prog.finally_ (do Repository.lockForSeed; runSeed uuid5) (.op .close fun _ => .ret ())

end

/-! ## The rows -/

/-- A seed's own fields satisfy the table's checks, and its location is one line. -/
def Fits (s : Seed) : Bool :=
  TEXT_MIN ≤ s.text.length && s.text.length ≤ TEXT_MAX && LOCATION_MIN ≤ s.location.length && s.location.length ≤ LOCATION_MAX &&
    !hasNul s.text && !hasNul s.location && s.contact.all (fun c => c.length ≤ 200 && !hasNul c) &&
    s.location.all (fun c => c != '\n' && c != '\r')

theorem cons_lit {text location : Str} {status : Status} {h : Int} {l l' : List Seed} (e : l = l') :
    ⟨(String.ofList text).toList, (String.ofList location).toList, none, status, h⟩ :: l =
      ⟨text, location, none, status, h⟩ :: l' := by
  rw [String.toList_ofList, String.toList_ofList, e]

theorem cons_lit_contact {text location contact : Str} {status : Status} {h : Int} {l l' : List Seed} (e : l = l') :
    ⟨(String.ofList text).toList, (String.ofList location).toList, some (String.ofList contact).toList, status, h⟩ :: l =
      ⟨text, location, some contact, status, h⟩ :: l' := by
  rw [String.toList_ofList, String.toList_ofList, String.toList_ofList, e]

/-- The seeds with their literals read: unfolding `String.toList` on each is slow. -/
theorem seeds_read : ∃ l, SEEDS = l ∧ l.all Fits = true ∧ (l.map (·.text)).Nodup := by
  unfold SEEDS
  apply Exists.intro
  apply And.intro
  · repeat first | apply cons_lit | apply cons_lit_contact
    apply rfl
  · decide +kernel

theorem seeds_fit : SEEDS.all Fits = true := by
  obtain ⟨l, hl, hfit, -⟩ := seeds_read
  rw [hl, hfit]

theorem texts_nodup : (SEEDS.map (·.text)).Nodup := by
  obtain ⟨l, hl, -, hnodup⟩ := seeds_read
  rwa [hl]

variable [Platform]

/-- Every seed has a row, and the database takes it. -/
theorem complaint_ok {s : Seed} (h : s.Fits = true) (now : Int) (i : Nat) :
    ∃ c, complaint uuid5 now s i = .ok c ∧ c.id = seedId uuid5 s.text ∧ c.Constraints ∧ int4 c.triageLatencyMs = true := by
  simp only [Fits, Bool.and_eq_true, decide_eq_true_eq, Bool.not_eq_true', List.all_eq_true, bne_iff_ne] at h
  obtain ⟨⟨⟨⟨⟨⟨⟨htext₁, htext₂⟩, hloc₁⟩, hloc₂⟩, htextNul⟩, hlocNul⟩, hcontact⟩, hline⟩ := h
  obtain ⟨r, hr⟩ : ∃ r, Rules.triage s.text s.location = .ok r := by
    -- what the summary shows of the location is one line, as the location is
    have hshown : ∀ c : Char, isSpace c = true → c ≠ ' ' → c ∉ s.location →
        c ∉ strip (Rules.summaryOf (Rules.categoryOf (lower s.text)) s.text s.location) := by
      intro c hc hne hloc hmem
      have hmem := (Rules.mem_strip_summaryOf _ _ _ hc hne).mp hmem
      exact hloc (mem_of_mem_stripBy (List.mem_of_mem_take ((List.rdropWhile_prefix _ _).subset hmem)))
    exact (Rules.triage_isOk_iff _ _).mpr ⟨hshown '\n' (by decide) (by decide) fun hm => (hline _ hm).1 rfl,
      hshown '\r' (by decide) (by decide) fun hm => (hline _ hm).2 rfl⟩
  have hsummary : hasNul r.summary = false := by
    obtain ⟨-, -, hs, -⟩ := TriageResult.ofFields_ok hr
    rw [hasNul, List.contains_eq_mem, decide_eq_false_iff_not, hs]
    intro hm
    rcases Rules.mem_summaryOf (mem_of_mem_stripBy hm) with h | h | h | h
    · exact absurd h (Rules.nul_not_mem_head _)
    · rw [hasNul, List.contains_eq_mem, decide_eq_false_iff_not] at hlocNul
      exact hlocNul h
    · rw [hasNul, List.contains_eq_mem, decide_eq_false_iff_not] at htextNul
      exact htextNul h
    · exact absurd h (by decide)
  have hcontact' : ∀ c, s.contact = some c → c.length ≤ 200 ∧ hasNul c = false := by
    intro c hc
    rw [hc] at hcontact
    simpa using hcontact
  refine ⟨_, by rw [complaint, hr]; rfl, rfl, ?_, ?_⟩
  · exact {
      textLen := ⟨htext₁, htext₂⟩
      locationLen := ⟨hloc₁, hloc₂⟩
      contactLen := fun c hc => (hcontact' c hc).1
      summaryLen := fun c hc => by cases hc; exact r.length_le
      triagedByLen := show "rules".toList.length ≤ 32 by decide
      latencyNonneg := by show (0 : Int) ≤ 1 + i % 3; omega
      textNul := htextNul
      locationNul := hlocNul
      contactNul := fun c hc => (hcontact' c hc).2
      summaryNul := fun c hc => by cases hc; exact hsummary
      triagedByNul := show hasNul "rules".toList = false by decide }
  · show int4 (1 + i % 3) = true
    rw [int4, Bool.and_eq_true, decide_eq_true_eq, decide_eq_true_eq]
    omega

omit [Platform] in
theorem mapM_ok {α β : Type} {f : α → Except Exc β} {R : α → β → Prop} {l : List α} (h : ∀ a ∈ l, ∃ b, f a = .ok b ∧ R a b) :
    ∃ bs, l.mapM f = .ok bs ∧ List.Forall₂ R l bs := by
  induction l with
  | nil => exact ⟨[], rfl, .nil⟩
  | cons a l ih =>
    obtain ⟨b, hb, hR⟩ := h a List.mem_cons_self
    obtain ⟨bs, hbs, hl⟩ := ih fun x hx => h x (List.mem_cons_of_mem _ hx)
    exact ⟨b :: bs, by rw [List.mapM_cons, hb, hbs]; rfl, .cons hR hl⟩

/-- The seeds' ids, in order. -/
def ids : List Uuid := SEEDS.map fun s => seedId uuid5 s.text

omit [Platform] in
theorem ids_nodup (h : Set.InjOn (seedId uuid5) {text | text ∈ SEEDS.map (·.text)}) : (ids uuid5).Nodup := by
  have hids : ids uuid5 = (SEEDS.map (·.text)).map (seedId uuid5) := by
    rw [List.map_map]
    rfl
  rw [hids]
  exact texts_nodup.map_on fun a ha b hb hab => h ha hb hab

theorem build_ok (now : Int) : ∃ rows, buildSeedComplaints uuid5 now = .ok rows ∧ rows.map (·.id) = ids uuid5 ∧
    ∀ c ∈ rows, c.Constraints ∧ int4 c.triageLatencyMs = true := by
  obtain ⟨rows, hrows, hall⟩ := mapM_ok (f := fun s => complaint uuid5 now s.1 s.2)
    (R := fun s c => c.id = seedId uuid5 s.1.text ∧ c.Constraints ∧ int4 c.triageLatencyMs = true) (l := SEEDS.zipIdx) <| by
      intro s hs
      exact complaint_ok uuid5 (List.all_eq_true.mp seeds_fit _ (List.fst_mem_of_mem_zipIdx hs)) now s.2
  have hrow : ∀ {l : List (Seed × Nat)} {cs : List Complaint},
      List.Forall₂ (fun s c => c.id = seedId uuid5 s.1.text ∧ c.Constraints ∧ int4 c.triageLatencyMs = true) l cs →
      cs.map (·.id) = (l.map Prod.fst).map (fun s => seedId uuid5 s.text) ∧
        ∀ c ∈ cs, c.Constraints ∧ int4 c.triageLatencyMs = true := by
    intro l cs h
    induction h with
    | nil => exact ⟨rfl, fun c hc => absurd hc List.not_mem_nil⟩
    | cons h _ ih =>
      refine ⟨by rw [List.map_cons, List.map_cons, List.map_cons, h.1, ih.1], fun c hc => ?_⟩
      rcases List.mem_cons.mp hc with rfl | hc
      · exact h.2
      · exact ih.2 c hc
  obtain ⟨hids, hfit⟩ := hrow hall
  exact ⟨rows, hrows, by rw [hids, List.zipIdx_map_fst]; rfl, hfit⟩

end Seed

end CivicPulse
