import PortableLayout.FileSystem.Edit
import PortableLayout.FileSystem.Memory
import PortableLayout.Main
import PortableLayout.Session
import PortableLayout.Proofs.CommandLine.Contents
import PortableLayout.Proofs.Disk.BaseDirectory
import PortableLayout.Proofs.Memory.Reports
import PortableLayout.Proofs.Memory.StandIn
import PortableLayout.Proofs.Shared.Ensurers
import PortableLayout.Proofs.Text.Scalar
import PortableLayout.Proofs.Text.Wide
import PortableLayout.Proofs.Text.Forms
import PortableLayout.Proofs.Text.Narrow
import PortableLayout.Proofs.Path.Join
import PortableLayout.Proofs.Table.Redirection
import PortableLayout.Proofs.Disk.Entries
import PortableLayout.Proofs.Disk.Configuration
import PortableLayout.Proofs.Table.Absolute
import PortableLayout.Proofs.Walk.Trace
import PortableLayout.Proofs.Report.Json
import PortableLayout.Proofs.Memory.Monotonicity
import PortableLayout.Proofs.Memory.Stages
import PortableLayout.Proofs.Walk.Respelling
import PortableLayout.Proofs.Path.Parent
import PortableLayout.Proofs.Table.Bundle
import PortableLayout.Proofs.Text.IllFormed
import PortableLayout.Proofs.Path.Text
import PortableLayout.Proofs.Report.Shown
import PortableLayout.Proofs.Report.Lines
import PortableLayout.Proofs.Table.ShellFolders
import PortableLayout.Proofs.Table.Texts
import PortableLayout.Proofs.Disk.Settings
import PortableLayout.Proofs.Path.Executable
import PortableLayout.Proofs.Walk.Ancestors
import PortableLayout.Proofs.Table.Looks
