import ChainArchive.Server.Basic

namespace ChainArchive

/-- A server where none listens: every request is refused. -/
structure Unreachable where

instance : Server Unreachable where
  answer s _ := (.error ⟨.connectionRefused, "connection refused"⟩, s)
  notice s _ := s

end ChainArchive
