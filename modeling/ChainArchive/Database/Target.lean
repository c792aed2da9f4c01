import ChainArchive.Text.Blank
import ChainArchive.Url.Query

namespace ChainArchive.Database

open ChainArchive.Text

def maintenanceName : String := "postgres"

def defaultApplication : String := "evt-pgsync"

/-- The database that a URL points at: its path without the slashes around it, else the field
`database` of its query, else the maintenance database. -/
def Target.name (u : Url) : String :=
  let path := trimBoth (· == '/') u.path
  if path.isEmpty then (u.field? "database").getD maintenanceName else String.ofList path

def Target.application (u : Url) : String :=
  (u.field? "application_name").getD defaultApplication

def Target.maintenance (u : Url) : Url :=
  { u with path := '/' :: maintenanceName.toList }

def databaseName (url : String) : Except Url.Fault String := Target.name <$> Url.read url

def applicationName (url : String) : Except Url.Fault String := Target.application <$> Url.read url

/-- The URL text of the maintenance database of the same server. -/
def maintenanceUrl (url : String) : Except Url.Fault String :=
  (fun u => (Target.maintenance u).write) <$> Url.read url

end ChainArchive.Database
