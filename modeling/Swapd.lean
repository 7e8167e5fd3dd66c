import Swapd.AttemptLedger
import Swapd.AutoBump
import Swapd.BlockTable
import Swapd.BlockTree
import Swapd.ChainFilter
import Swapd.ChainIndex
import Swapd.ChainMonitor
import Swapd.ChainRefinement
import Swapd.ChainRepository
import Swapd.ClaimConflicts
import Swapd.ClaimFees
import Swapd.ClaimMonitor
import Swapd.ClaimRepository
import Swapd.ClaimService
import Swapd.ClaimTransaction
import Swapd.Cln
import Swapd.ClnPreimages
import Swapd.ConcurrentSyncs
import Swapd.SingleBranch
import Swapd.ConfirmedOutputs
import Swapd.CreditedResults
import Swapd.Exclusion
import Swapd.FilteredSenders
import Swapd.HistoricalPayments
import Swapd.Integer
import Swapd.Interaction
import Swapd.Interference
import Swapd.InternalServer
import Swapd.JsonRpc
import Swapd.Knowledge
import Swapd.Lnd
import Swapd.LndPreimages
import Swapd.MemChain
import Swapd.Monitors
import Swapd.Nearest
import Swapd.PaidOnce
import Swapd.PaySwapChecks
import Swapd.PaySwapPayment
import Swapd.PaymentIndex
import Swapd.ReadCommitted
import Swapd.RefundExclusion
import Swapd.RefundLocks
import Swapd.Rehearsals
import Swapd.Script
import Swapd.SendPays
import Swapd.Serde
import Swapd.SerialOrder
import Swapd.Serializability
import Swapd.SharedDatabase
import Swapd.SingleProcess
import Swapd.StatementExclusion
import Swapd.StoredPreimages
import Swapd.SuccessfulAttempts
import Swapd.SwapRepository
import Swapd.SwapScripts
import Swapd.SwapService
import Swapd.SwapStatements
import Swapd.System
import Swapd.Table
import Swapd.TableChanges
import Swapd.TipSync
import Swapd.TruthfulNode
import Swapd.Types
import Swapd.UnspentOutputs
import Swapd.WhatTheFee
