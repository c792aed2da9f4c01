import ChainArchive.Database.Target
import ChainArchive.Proofs.Url.RoundTrip

namespace ChainArchive.Database

open ChainArchive.Text

variable {url : String} {u : Url}

theorem maintenance_path : "/postgres".toList = '/' :: maintenanceName.toList := by decide +kernel

theorem maintenanceUrl_eq (h : Url.read url = .ok u) :
    maintenanceUrl url = .ok (Target.maintenance u).write := by
  rw [maintenanceUrl, h]
  rfl

theorem read_maintenance (h : Url.read url = .ok u) :
    Url.read (Target.maintenance u).write = .ok (Target.maintenance u) :=
  have hplain : maintenanceName.toList.all Url.isPlain = true := by decide +kernel
  Url.read_write (Url.read_sound h) (List.all_eq_true.mp hplain)

theorem name_maintenance (u : Url) : Target.name (Target.maintenance u) = maintenanceName := by
  have htrim : trimBoth (· == '/') ('/' :: maintenanceName.toList) = maintenanceName.toList := by
    decide +kernel
  have hchars : maintenanceName.toList.isEmpty = false := by decide +kernel
  rw [Target.name, Target.maintenance]
  simp only [htrim, hchars, Bool.false_eq_true, ↓reduceIte, String.ofList_toList]

/-- For every URL that can be read, the maintenance URL can be read as well, and only the database
is another one: scheme, network location, parameters, query and fragment stay, and so does the name
of the program. It is its own maintenance URL. -/
theorem maintenance_differs_in_database (h : Url.read url = .ok u) :
    ∃ m, maintenanceUrl url = .ok m ∧ Url.read m = .ok { u with path := "/postgres".toList } ∧
      databaseName m = .ok "postgres" ∧ applicationName m = applicationName url ∧
      maintenanceUrl m = .ok m := by
  have hread := read_maintenance h
  refine ⟨_, maintenanceUrl_eq h, ?_, ?_, ?_, ?_⟩
  · rw [maintenance_path]
    exact hread
  · rw [databaseName, hread]
    exact congrArg Except.ok (name_maintenance u)
  · rw [applicationName, applicationName, hread, h]
    rfl
  · exact (maintenanceUrl_eq hread).trans rfl

theorem maintenance_of_parameters :
    let url := " HTTP:///ev\nt;v=1?database=a%20b#top"
    let u : Url := ⟨"http".toList, [], "/evt".toList, "v=1".toList, "database=a%20b".toList,
      "top".toList⟩
    let target := "http:///postgres;v=1?database=a%20b#top"
    (Url.read url).toOption = some u ∧ (maintenanceUrl url).toOption = some target ∧
      Url.read target = .ok { u with path := "/postgres".toList } ∧
      databaseName target = .ok "postgres" := by
  intro url u target
  have hread : (Url.read url).toOption = some u := by decide +kernel
  have hwritten : (maintenanceUrl url).toOption = some target := by decide +kernel
  cases h : Url.read url with
  | error fault => cases h ▸ hread
  | ok v =>
    obtain rfl : v = u := by simpa [h, Except.toOption] using hread
    obtain ⟨m, hm, hagain, hname, -⟩ := maintenance_differs_in_database h
    obtain rfl : m = target := by simpa [hm, Except.toOption] using hwritten
    exact ⟨rfl, hwritten, hagain, hname⟩

end ChainArchive.Database
