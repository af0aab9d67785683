import Libdomain.Program.Ignorance
import Libdomain.Program.Runs
import Libdomain.Program.Ensures
import Libdomain.Ldap.Directory
import Libdomain.Ldap.Values
import Libdomain.Domain.Memberships
import Libdomain.Domain.AttributeLists
import Libdomain.Domain.Configuration
import Libdomain.Queue.QueueFamily
import Libdomain.Ragel.Machine
import Libdomain.Syntaxes.RelativeNames
import Libdomain.Domain.Copies
import Libdomain.Domain.Modifications
import Libdomain.Domain.Objects
import Libdomain.Domain.Unblocking
import Libdomain.Domain.CompleteHandles
import Libdomain.Parsers.CutNames
import Libdomain.Connection.QueueInvariant
import Libdomain.Connection.Bounds
import Libdomain.Connection.Tls
import Libdomain.Connection.Authentication
import Libdomain.Connection.SearchDelivery
import Libdomain.Connection.SearchTable
import Libdomain.Connection.SearchRemoval
import Libdomain.Connection.Detection
import Libdomain.Connection.Conservation
import Libdomain.Connection.Submission
import Libdomain.Connection.Stages
import Libdomain.Connection.Reconnect
import Libdomain.Connection.Driver
import Libdomain.Connection.Directory
import Libdomain.Connection.SchemaIndexes
import Libdomain.Connection.Reporting
import Libdomain.Connection.EventSources
import Libdomain.Connection.Handles
import Libdomain.Connection.ErrorCallback
import Libdomain.Connection.Abandonment
import Libdomain.Connection.SharedPath
import Libdomain.Connection.Waiting
import Libdomain.Connection.SchemaLoading
import Libdomain.Connection.Progress
import Libdomain.Connection.SearchResults
import Libdomain.Syntaxes.Inclusions
import Libdomain.Syntaxes.Integers
import Libdomain.Syntaxes.DirectoryStrings
import Libdomain.Syntaxes.TimesAndOids
import Libdomain.Schema.Reading
import Libdomain.Schema.Loading
import Libdomain.Schema.OpenldapLoading
import Libdomain.Connection.Accounting
import Libdomain.Connection.Stops
